import Mathlib.Data.List.DropRight
import Exchange.Lib.Assoc

/-!
# Keyed summaries

A map that keeps a summary of all items under the key of each: `start` makes it from the first item of a key and
`update` takes a later one in. Whatever the order in which the keys come, the summary under a key is that of the
items with the key (`lookup_foldl_add`).
-/

namespace Exchange
namespace Grouping

universe u v w

variable {κ : Type u} [DecidableEq κ] {ν : Type v} {ι : Type w} (key : ι → κ) (start : ι → ν) (update : ν → ι → ν)

/-- The summary of the items in order; there is none of no items. -/
def summary : List ι → Option ν
  | [] => none
  | item :: items => some (items.foldl update (start item))

theorem summary_eq_none_iff {items : List ι} : summary start update items = none ↔ items = [] := by
  cases items with
  | nil => exact iff_of_true rfl rfl
  | cons item items => exact iff_of_false nofun nofun

theorem summary_concat (items : List ι) (item : ι) : summary start update (items ++ [item]) =
    some (((summary start update items).map (update · item)).getD (start item)) := by
  cases items with
  | nil => rfl
  | cons first items => rw [List.cons_append, summary, List.foldl_append]; rfl

def add (m : AList fun _ : κ => ν) (item : ι) : AList fun _ : κ => ν :=
  m.insert (key item) (((m.lookup (key item)).map (update · item)).getD (start item))

theorem lookup_foldl_add (items : List ι) (k : κ) : (items.foldl (add key start update) ∅).lookup k =
    summary start update (items.filter fun item => key item = k) := by
  induction items using List.reverseRecOn with
  | nil => rfl
  | append_singleton items item ih =>
    rw [List.foldl_append, List.foldl_cons, List.foldl_nil, add, Assoc.lookup_insert, List.filter_append]
    split_ifs with hk
    · subst hk
      rw [ih, List.filter_cons_of_pos (by simp), List.filter_nil, summary_concat]
    · rw [ih, List.filter_cons_of_neg (by simpa using Ne.symm hk), List.filter_nil, List.append_nil]

end Grouping
end Exchange
