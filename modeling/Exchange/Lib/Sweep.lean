import Mathlib.Algebra.Order.Field.Basic
import Mathlib.Algebra.BigOperators.Group.List.Basic
import Mathlib.Algebra.Order.BigOperators.Group.List
import Mathlib.Data.List.Sort
import Mathlib.Tactic.Linarith
import Mathlib.Tactic.Ring

/-!
# Greedy sweeps over a priority list

A demand `r` is served from a list of makers, front first: a maker is reached while more than `eps`
of the demand is left and `ok` holds, gives `min r (qty m)`, and leaves the list once at most `eps`
of it is left. `taken` lists the makers reached with what each gave, `left` is the unserved demand
and `rest` the list afterwards.

The last section is about the order of the list: a list sorted by key in which every key has its
elements in the order of `l` is the stable sort of `l`.
-/

namespace Exchange

namespace Sweep

variable {μ K : Type*} [Field K] [LinearOrder K]

section Defs

variable (qty : μ → K) (setQty : μ → K → μ) (ok : μ → Prop) [DecidablePred ok] (eps : K)

/-- The makers reached, with the quantity each gives. -/
def taken : K → List μ → List (μ × K)
  | _, [] => []
  | r, m :: ms =>
    if eps < r ∧ ok m then (m, min r (qty m)) :: taken (r - min r (qty m)) ms else []

/-- The demand that stays unserved. -/
def left (r : K) (ms : List μ) : K := r - ((taken qty ok eps r ms).map Prod.snd).sum

/-- The list after the sweep. -/
def rest : K → List μ → List μ
  | _, [] => []
  | r, m :: ms =>
    if eps < r ∧ ok m then
      if qty m - min r (qty m) ≤ eps then rest (r - min r (qty m)) ms
      else setQty m (qty m - min r (qty m)) :: rest (r - min r (qty m)) ms
    else m :: ms

def given {ι : Type*} [DecidableEq ι] (key : μ → ι) (r : K) (ms : List μ) (k : ι) : K :=
  (((taken qty ok eps r ms).filter fun p => key p.1 = k).map Prod.snd).sum

end Defs

variable {qty : μ → K} {setQty : μ → K → μ} {ok : μ → Prop} [DecidablePred ok] {eps : K} {r : K}
  {m : μ} {ms : List μ}

theorem taken_cons_of (h : eps < r ∧ ok m) :
    taken qty ok eps r (m :: ms) = (m, min r (qty m)) :: taken qty ok eps (r - min r (qty m)) ms := by
  rw [taken, if_pos h]

theorem taken_cons_of_not (h : ¬(eps < r ∧ ok m)) : taken qty ok eps r (m :: ms) = [] := by
  rw [taken, if_neg h]

theorem taken_of_le (h : r ≤ eps) : taken qty ok eps r ms = [] := by
  cases ms with
  | nil => rfl
  | cons m ms => exact taken_cons_of_not fun h' => absurd h'.1 (not_lt.2 h)

theorem rest_of_le (h : r ≤ eps) : rest qty setQty ok eps r ms = ms := by
  cases ms with
  | nil => rfl
  | cons m ms => rw [rest, if_neg fun h' => absurd h'.1 (not_lt.2 h)]

@[simp] theorem left_nil : left qty ok eps r [] = r := by simp [left, taken]

theorem left_cons_of (h : eps < r ∧ ok m) :
    left qty ok eps r (m :: ms) = left qty ok eps (r - min r (qty m)) ms := by
  rw [left, taken_cons_of h, left]
  simp only [List.map_cons, List.sum_cons]
  ring

theorem left_cons_of_not (h : ¬(eps < r ∧ ok m)) : left qty ok eps r (m :: ms) = r := by
  simp [left, taken_cons_of_not h]

theorem left_of_le (h : r ≤ eps) : left qty ok eps r ms = r := by
  simp [left, taken_of_le h]

/-- The amount pays for the costs one after the other, and more than `eps` of it is left while there are more. -/
def Affords (eps : K) : K → List K → Prop
  | _, [] => True
  | a, c :: cs => c ≤ a ∧ (cs ≠ [] → eps < a - c) ∧ Affords eps (a - c) cs

theorem affords_taken : ∀ (r : K) (ms : List μ), Affords eps r ((taken qty ok eps r ms).map Prod.snd)
  | _, [] => trivial
  | r, m :: ms => by
    by_cases h : eps < r ∧ ok m
    · rw [taken_cons_of h, List.map_cons]
      refine ⟨min_le_left _ _, fun hne => ?_, affords_taken _ ms⟩
      by_contra hle
      rw [taken_of_le (not_lt.1 hle)] at hne
      exact hne rfl
    · rw [taken_cons_of_not h]
      trivial

theorem map_fst_taken : ∀ (r : K) (ms : List μ), (taken qty ok eps r ms).map Prod.fst <+: ms
  | _, [] => List.nil_prefix
  | r, m :: ms => by
    by_cases h : eps < r ∧ ok m
    · rw [taken_cons_of h, List.map_cons]
      exact (List.cons_prefix_cons).2 ⟨rfl, map_fst_taken _ ms⟩
    · rw [taken_cons_of_not h]
      exact List.nil_prefix

theorem mem_of_mem_taken {p : μ × K} (h : p ∈ taken qty ok eps r ms) : p.1 ∈ ms :=
  (map_fst_taken r ms).subset (List.mem_map_of_mem h)

/-- Whatever is in the list after the sweep was in it before, with its quantity changed at most. -/
theorem mem_rest {x : μ} : ∀ {r : K} {ms : List μ}, x ∈ rest qty setQty ok eps r ms →
    ∃ m ∈ ms, x = m ∨ ∃ q, x = setQty m q
  | _, [], h => by simp [rest] at h
  | r, m :: ms, h => by
    rw [rest] at h
    split_ifs at h with h1 h2
    · obtain ⟨m', hm', hx⟩ := mem_rest h
      exact ⟨m', by simp [hm'], hx⟩
    · rcases List.mem_cons.1 h with rfl | h
      · exact ⟨m, by simp, .inr ⟨_, rfl⟩⟩
      · obtain ⟨m', hm', hx⟩ := mem_rest h
        exact ⟨m', by simp [hm'], hx⟩
    · exact ⟨x, h, .inl rfl⟩

theorem rest_sublist {ι : Type*} {f : μ → ι} (hf : ∀ m q, f (setQty m q) = f m) : ∀ (r : K) (ms : List μ),
    ((rest qty setQty ok eps r ms).map f).Sublist (ms.map f)
  | _, [] => .slnil
  | r, m :: ms => by
    rw [rest]
    split_ifs with h1 h2
    · exact (rest_sublist hf _ ms).cons _
    · rw [List.map_cons, List.map_cons, hf]
      exact (rest_sublist hf _ ms).cons_cons _
    · exact List.Sublist.refl _

theorem taken_bounds (heps : 0 ≤ eps) {p : μ × K} : ∀ {r : K} {ms : List μ}, (∀ m ∈ ms, eps < qty m) →
    p ∈ taken qty ok eps r ms → 0 < p.2 ∧ p.2 ≤ qty p.1
  | _, [], _, h => by simp [taken] at h
  | r, m :: ms, hq, h => by
    by_cases h' : eps < r ∧ ok m
    · rw [taken_cons_of h'] at h
      rcases List.mem_cons.1 h with rfl | h
      · exact ⟨lt_min (heps.trans_lt h'.1) (heps.trans_lt (hq m (by simp))), min_le_right _ _⟩
      · exact taken_bounds heps (fun m hm => hq m (by simp [hm])) h
    · rw [taken_cons_of_not h'] at h
      cases h

section Given

variable {ι : Type*} [DecidableEq ι] {key : μ → ι}

theorem given_of_not_mem {k : ι} (hk : ∀ m ∈ ms, key m ≠ k) : given qty ok eps key r ms k = 0 := by
  have hnil : ((taken qty ok eps r ms).filter fun p => key p.1 = k) = [] :=
    List.filter_eq_nil_iff.2 fun p hp => by simpa using hk p.1 (mem_of_mem_taken hp)
  rw [given, hnil]
  rfl

theorem given_cons_of_not {k : ι} (h : ¬(eps < r ∧ ok m)) : given qty ok eps key r (m :: ms) k = 0 := by
  rw [given, taken_cons_of_not h]
  rfl

theorem given_cons_of {k : ι} (h : eps < r ∧ ok m) : given qty ok eps key r (m :: ms) k =
    (if key m = k then min r (qty m) else 0) + given qty ok eps key (r - min r (qty m)) ms k := by
  rw [given, taken_cons_of h, List.filter_cons]
  split_ifs with hk hk' hk'
  · rw [List.map_cons, List.sum_cons]
    rfl
  · exact absurd (by simpa using hk) hk'
  · exact absurd hk' (by simpa using hk)
  · rw [zero_add]
    rfl

theorem given_bounds (heps : 0 ≤ eps) (hq : ∀ m ∈ ms, eps < qty m) (hnd : (ms.map key).Nodup) (hm : m ∈ ms) :
    0 ≤ given qty ok eps key r ms (key m) ∧ given qty ok eps key r ms (key m) ≤ qty m := by
  induction ms generalizing r with
  | nil => cases hm
  | cons m₀ ms ih =>
    rw [List.map_cons, List.nodup_cons] at hnd
    have hm0 : 0 ≤ qty m := heps.trans (hq m hm).le
    by_cases h : eps < r ∧ ok m₀
    swap
    · rw [given_cons_of_not h]
      exact ⟨le_rfl, hm0⟩
    rw [given_cons_of h]
    by_cases hk : key m₀ = key m
    · have hrest : given qty ok eps key (r - min r (qty m₀)) ms (key m) = 0 :=
        given_of_not_mem fun m' hm' heq => hnd.1 (List.mem_map.2 ⟨m', hm', heq.trans hk.symm⟩)
      have heq : m = m₀ := by
        rcases List.mem_cons.1 hm with heq | hm
        · exact heq
        · exact absurd (List.mem_map.2 ⟨m, hm, hk.symm⟩) hnd.1
      rw [if_pos hk, hrest, add_zero, heq]
      exact ⟨le_min (heps.trans h.1.le) (heps.trans (hq m₀ (by simp)).le), min_le_right _ _⟩
    · have hm' : m ∈ ms := by
        rcases List.mem_cons.1 hm with rfl | hm
        · exact absurd rfl hk
        · exact hm
      rw [if_neg hk, zero_add]
      exact ih (fun m hm => hq m (by simp [hm])) hnd.2 hm'

/-- A maker stays exactly when more than `eps` of it is left, with what it did not give. -/
theorem mem_rest_iff (hq : ∀ m ∈ ms, eps < qty m) (hnd : (ms.map key).Nodup)
    (hkey : ∀ m q, key (setQty m q) = key m) (hself : ∀ m, setQty m (qty m) = m) (hm : m ∈ ms) {x : μ} :
    x ∈ rest qty setQty ok eps r ms ∧ key x = key m ↔ eps < qty m - given qty ok eps key r ms (key m) ∧
      x = setQty m (qty m - given qty ok eps key r ms (key m)) := by
  induction ms generalizing r with
  | nil => cases hm
  | cons m₀ ms ih =>
    have hnd' := hnd
    rw [List.map_cons, List.nodup_cons] at hnd'
    by_cases h : eps < r ∧ ok m₀
    swap
    · -- the sweep stops here: every maker stays as it is
      rw [given_cons_of_not h, sub_zero, hself, rest, if_neg h]
      refine ⟨fun hx => ⟨hq m hm, ?_⟩, fun hx => ⟨hx.2 ▸ hm, by rw [hx.2]⟩⟩
      exact List.inj_on_of_nodup_map hnd hx.1 hm hx.2
    have hrest₀ : ∀ y ∈ rest qty setQty ok eps (r - min r (qty m₀)) ms, key y ≠ key m₀ := by
      intro y hy heq
      obtain ⟨m', hm', hy'⟩ := mem_rest hy
      have hkey' : key y = key m' := by
        rcases hy' with rfl | ⟨q, rfl⟩
        · rfl
        · exact hkey m' q
      exact hnd'.1 (List.mem_map.2 ⟨m', hm', hkey'.symm.trans heq⟩)
    rw [given_cons_of h, rest, if_pos h]
    by_cases hk : key m₀ = key m
    · have hzero : given qty ok eps key (r - min r (qty m₀)) ms (key m) = 0 :=
        given_of_not_mem fun m' hm' heq => hnd'.1 (List.mem_map.2 ⟨m', hm', heq.trans hk.symm⟩)
      obtain rfl : m = m₀ := by
        rcases List.mem_cons.1 hm with heq | hm
        · exact heq
        · exact absurd (List.mem_map.2 ⟨m, hm, hk.symm⟩) hnd'.1
      rw [if_pos rfl, hzero, add_zero]
      split_ifs with hle
      · exact ⟨fun hx => absurd hx.2 (hrest₀ x hx.1), fun hx => absurd hx.1 (not_lt.2 hle)⟩
      · refine ⟨fun hx => ⟨not_le.1 hle, ?_⟩, fun hx => ⟨by rw [hx.2]; simp, by rw [hx.2, hkey]⟩⟩
        rcases List.mem_cons.1 hx.1 with heq | hmem
        · exact heq
        · exact absurd hx.2 (hrest₀ x hmem)
    · have hm' : m ∈ ms := by
        rcases List.mem_cons.1 hm with rfl | hm
        · exact absurd rfl hk
        · exact hm
      rw [if_neg hk, zero_add, ← ih (fun m hm => hq m (by simp [hm])) hnd'.2 hm']
      split_ifs with hle
      · rfl
      · refine ⟨fun hx => ⟨?_, hx.2⟩, fun hx => ⟨by simp [hx.1], hx.2⟩⟩
        rcases List.mem_cons.1 hx.1 with heq | hmem
        · rw [heq, hkey] at hx
          exact absurd hx.2 hk
        · exact hmem

end Given

section Map

variable {μ' : Type*} {qty' : μ' → K} {setQty' : μ' → K → μ'} {ok' : μ' → Prop} [DecidablePred ok'] {f : μ → μ'}

theorem taken_map (hqty : ∀ m, qty' (f m) = qty m) (hok : ∀ m, ok' (f m) ↔ ok m) : ∀ (r : K) (ms : List μ),
    taken qty' ok' eps r (ms.map f) = (taken qty ok eps r ms).map fun p => (f p.1, p.2)
  | _, [] => rfl
  | r, m :: ms => by
    rw [List.map_cons, taken, taken, hqty, taken_map hqty hok]
    simp only [hok]
    split_ifs <;> rfl

theorem left_map (hqty : ∀ m, qty' (f m) = qty m) (hok : ∀ m, ok' (f m) ↔ ok m) (r : K) (ms : List μ) :
    left qty' ok' eps r (ms.map f) = left qty ok eps r ms := by
  rw [left, left, taken_map hqty hok, List.map_map]
  rfl

theorem rest_map (hqty : ∀ m, qty' (f m) = qty m) (hok : ∀ m, ok' (f m) ↔ ok m)
    (hset : ∀ m q, setQty' (f m) q = f (setQty m q)) : ∀ (r : K) (ms : List μ),
    rest qty' setQty' ok' eps r (ms.map f) = (rest qty setQty ok eps r ms).map f
  | _, [] => rfl
  | r, m :: ms => by
    rw [List.map_cons, rest, rest, hqty, hset, rest_map hqty hok hset]
    simp only [hok]
    split_ifs <;> rfl

end Map

/-! ### The whole list -/

variable [IsStrictOrderedRing K]

theorem left_nonneg (hr : 0 ≤ r) : 0 ≤ left qty ok eps r ms := by
  induction ms generalizing r with
  | nil => simpa using hr
  | cons m ms ih =>
    by_cases h : eps < r ∧ ok m
    · rw [left_cons_of h]
      exact ih (by linarith [min_le_left r (qty m)])
    · rwa [left_cons_of_not h]

/-- If demand is left, every maker that was `ok` is gone: the sweep stopped at a maker that is not. -/
theorem not_ok_of_left (heps : 0 ≤ eps) (hq : ∀ m ∈ ms, 0 ≤ qty m) (hl : eps < left qty ok eps r ms) :
    ∀ m ∈ (rest qty setQty ok eps r ms).head?, ¬ ok m := by
  induction ms generalizing r with
  | nil => intro m hm; simp [rest] at hm
  | cons m ms ih =>
    by_cases h : eps < r ∧ ok m
    · rw [left_cons_of h] at hl
      have hle : qty m - min r (qty m) ≤ eps := by
        by_contra hgt
        have hlt : r < qty m := by
          by_contra hr
          rw [min_eq_right (not_lt.1 hr)] at hgt
          exact hgt (by linarith)
        rw [min_eq_left hlt.le, sub_self, left_of_le heps] at hl
        exact absurd hl (not_lt.2 heps)
      rw [rest, if_pos h, if_pos hle]
      exact ih (fun m hm => hq m (by simp [hm])) hl
    · rw [left_cons_of_not h] at hl
      rw [rest, if_neg h]
      intro m' hm'
      simp only [List.head?_cons, Option.mem_def, Option.some.injEq] at hm'
      subst hm'
      exact fun hok => h ⟨hl, hok⟩

/-- In a list whose makers are `ok` up to some point and not after it, a demand is served up to `eps` exactly when the
makers that are `ok` have as much between them. -/
theorem left_le_iff (heps : 0 ≤ eps) (hq : ∀ m ∈ ms, 0 ≤ qty m) (hmono : ms.Pairwise fun a b => ok b → ok a) :
    left qty ok eps r ms ≤ eps ↔ r - eps ≤ ((ms.filter fun m => ok m).map qty).sum := by
  have hsum : ∀ {l : List μ}, (∀ m ∈ l, 0 ≤ qty m) → 0 ≤ ((l.filter fun m => ok m).map qty).sum := by
    intro l hl
    refine List.sum_nonneg fun x hx => ?_
    obtain ⟨m, hm, rfl⟩ := List.mem_map.1 hx
    exact hl m (List.mem_of_mem_filter hm)
  induction ms generalizing r with
  | nil => simp
  | cons m ms ih =>
    obtain ⟨hm, hmono⟩ := List.pairwise_cons.1 hmono
    have hq' : ∀ m ∈ ms, 0 ≤ qty m := fun m hm => hq m (by simp [hm])
    rcases le_or_gt r eps with hle | hlt
    · rw [left_of_le hle]
      exact iff_of_true hle (by linarith [hsum hq])
    by_cases hok : ok m
    · rw [left_cons_of ⟨hlt, hok⟩, List.filter_cons_of_pos (by simpa using hok), List.map_cons, List.sum_cons]
      rcases le_total (qty m) r with hr | hr
      · rw [min_eq_right hr]
        refine (ih hq' hmono).trans ?_
        rw [sub_right_comm, sub_le_iff_le_add']
      · rw [min_eq_left hr, sub_self, left_of_le heps]
        exact iff_of_true heps (by linarith [hsum hq'])
    · have hnil : ((m :: ms).filter fun m => ok m) = [] := by
        refine List.filter_eq_nil_iff.2 fun m' hm' => ?_
        rcases List.mem_cons.1 hm' with rfl | hm'
        · simpa using hok
        · simpa using fun hok' => hok (hm m' hm' hok')
      rw [left_cons_of_not fun h => hok h.2, hnil]
      exact iff_of_false (not_le.2 hlt) (by simpa using hlt)

/-- The shape of the list after a sweep: the makers reached are gone, except that the last one may
stay with what it did not give; the others keep their place. -/
theorem rest_shape (heps : 0 ≤ eps) (hq : ∀ m ∈ ms, 0 ≤ qty m) :
    ∃ reached untouched, ms = reached ++ untouched ∧ (taken qty ok eps r ms).map Prod.fst = reached ∧
      (rest qty setQty ok eps r ms = untouched ∨
        ∃ before m x, reached = before ++ [m] ∧ (m, x) ∈ taken qty ok eps r ms ∧ eps < qty m - x ∧
          rest qty setQty ok eps r ms = setQty m (qty m - x) :: untouched) := by
  induction ms generalizing r with
  | nil => exact ⟨[], [], rfl, rfl, .inl rfl⟩
  | cons m ms ih =>
    by_cases h : eps < r ∧ ok m
    swap
    · exact ⟨[], m :: ms, rfl, by rw [taken_cons_of_not h]; rfl, .inl (by rw [rest, if_neg h])⟩
    rw [taken_cons_of h, rest, if_pos h]
    by_cases hle : qty m - min r (qty m) ≤ eps
    · obtain ⟨reached, untouched, hms, ht, hrest⟩ :=
        @ih (r - min r (qty m)) fun m hm => hq m (by simp [hm])
      refine ⟨m :: reached, untouched, by rw [hms]; rfl, by rw [List.map_cons, ht], ?_⟩
      rw [if_pos hle]
      refine hrest.imp_right ?_
      rintro ⟨before, m', x, hb, hx, hlt, hr⟩
      exact ⟨m :: before, m', x, by rw [hb]; rfl, by simp [hx], hlt, hr⟩
    · -- a maker that keeps more than `eps` gave the whole demand
      have hr : r ≤ qty m := by
        by_contra hlt
        rw [min_eq_right (not_le.1 hlt).le] at hle
        exact hle (by linarith)
      have h0 : r - min r (qty m) ≤ eps := by rw [min_eq_left hr]; linarith
      refine ⟨[m], ms, rfl, by rw [taken_of_le h0]; rfl, .inr ⟨[], m, min r (qty m), rfl, by simp, ?_, ?_⟩⟩
      · exact not_le.1 hle
      · rw [if_neg hle, rest_of_le h0]

theorem affords_of_sum {costs : List K} : ∀ {a : K}, (∀ c ∈ costs, 0 ≤ c) → costs.sum ≤ a →
    (1 < costs.length → eps < a - costs.dropLast.sum) → Affords eps a costs := by
  induction costs with
  | nil => intro a _ _ _; trivial
  | cons c cs ih =>
    intro a hnonneg hsum hdust
    rw [List.sum_cons] at hsum
    have hcs : ∀ x ∈ cs, 0 ≤ x := fun x hx => hnonneg x (List.mem_cons_of_mem _ hx)
    have hrest : 0 ≤ cs.sum := List.sum_nonneg hcs
    have hlast : cs ≠ [] → eps < a - c - cs.dropLast.sum := by
      intro hne
      have := hdust (by rw [List.length_cons]; exact Nat.lt_add_of_pos_left (List.length_pos_iff.2 hne))
      rw [List.dropLast_cons_of_ne_nil hne, List.sum_cons] at this
      linarith
    refine ⟨by linarith, fun hne => ?_, ih hcs (by linarith) fun hlen => hlast fun hnil => by simp [hnil] at hlen⟩
    have hdrop : 0 ≤ cs.dropLast.sum := List.sum_nonneg fun x hx => hcs x (List.dropLast_subset _ hx)
    linarith [hlast hne]

/-! ### The order of the list -/

section Stable

variable {α κ : Type*} {lt : κ → κ → Prop} [IsStrictTotalOrder κ lt] [DecidableEq κ] {key : α → κ}

theorem eq_of_filter_eq {l l' : List α}
    (hl : l.Pairwise fun a b => key a = key b ∨ lt (key a) (key b))
    (hl' : l'.Pairwise fun a b => key a = key b ∨ lt (key a) (key b))
    (h : ∀ k, l.filter (fun a => key a = k) = l'.filter (fun a => key a = k)) : l = l' := by
  induction l generalizing l' with
  | nil =>
    refine (List.eq_nil_iff_forall_not_mem.2 fun x hx => ?_).symm
    have := congrArg (x ∈ ·) (h (key x))
    simp [hx] at this
  | cons x l ih =>
    have hmem : ∀ z, z ∈ x :: l ↔ z ∈ l' := by
      intro z
      have := congrArg (z ∈ ·) (h (key z))
      simpa using this
    cases l' with
    | nil => exact absurd ((hmem x).1 (by simp)) (by simp)
    | cons y l' =>
      obtain ⟨hx, hls⟩ := List.pairwise_cons.1 hl
      obtain ⟨hy, hls'⟩ := List.pairwise_cons.1 hl'
      have hxy : key x = key y := by
        have h1 : key x = key y ∨ lt (key x) (key y) := by
          rcases List.mem_cons.1 ((hmem y).2 (by simp)) with rfl | hm
          · exact .inl rfl
          · exact hx y hm
        have h2 : key y = key x ∨ lt (key y) (key x) := by
          rcases List.mem_cons.1 ((hmem x).1 (by simp)) with rfl | hm
          · exact .inl rfl
          · exact hy x hm
        rcases h1 with h1 | h1
        · exact h1
        · rcases h2 with h2 | h2
          · exact h2.symm
          · exact absurd (trans_of lt h1 h2) (irrefl_of lt _)
      have hhead := h (key x)
      rw [List.filter_cons_of_pos (by simp), List.filter_cons_of_pos (by simp [hxy])] at hhead
      obtain ⟨rfl, -⟩ := List.cons.inj hhead
      have htail : ∀ k, l.filter (fun a => key a = k) = l'.filter (fun a => key a = k) := by
        intro k
        have := h k
        by_cases hk : key x = k
        · rw [List.filter_cons_of_pos (by simp [hk]), List.filter_cons_of_pos (by simp [hk])] at this
          exact (List.cons.inj this).2
        · rwa [List.filter_cons_of_neg (by simp [hk]), List.filter_cons_of_neg (by simp [hk])] at this
      rw [ih hls hls' htail]

variable [DecidableRel lt]

/-- A new element goes behind those of its key and before the first that is worse. -/
theorem filter_orderedInsert {a : α} {l : List α} (hl : l.Pairwise fun a b => key a = key b ∨ lt (key a) (key b)) (k : κ) :
    (l.orderedInsert (fun a b => lt (key a) (key b)) a).filter (fun x => key x = k) =
      l.filter (fun x => key x = k) ++ if key a = k then [a] else [] := by
  induction l with
  | nil => by_cases hk : key a = k <;> simp [hk]
  | cons b l ih =>
    obtain ⟨hb, hls⟩ := List.pairwise_cons.1 hl
    rw [List.orderedInsert]
    split_ifs with hlt hk hk
    · -- everything from here on is worse than the new element
      have hnil : (b :: l).filter (fun x => key x = k) = [] := by
        refine List.filter_eq_nil_iff.2 fun x hx => ?_
        rw [decide_eq_true_iff, ← hk]
        rintro heq
        rcases List.mem_cons.1 hx with rfl | hx
        · exact irrefl_of lt _ (heq ▸ hlt)
        · rcases hb x hx with heq' | hlt'
          · exact irrefl_of lt (key a) (by rwa [heq', heq] at hlt)
          · exact irrefl_of lt (key a) (trans_of lt hlt (heq ▸ hlt'))
      rw [List.filter_cons_of_pos (by simpa using hk), hnil, List.nil_append]
    · rw [List.filter_cons_of_neg (by simpa using hk), List.append_nil]
    · rw [List.filter_cons, List.filter_cons, ih hls, if_pos hk]
      split_ifs <;> rfl
    · rw [List.filter_cons, List.filter_cons, ih hls, if_neg hk]
      split_ifs <;> rfl

omit [DecidableEq κ] in
theorem pairwise_orderedInsert {a : α} {l : List α} (hl : l.Pairwise fun a b => key a = key b ∨ lt (key a) (key b)) :
    (l.orderedInsert (fun a b => lt (key a) (key b)) a).Pairwise fun a b => key a = key b ∨ lt (key a) (key b) := by
  induction l with
  | nil => simp
  | cons b l ih =>
    obtain ⟨hb, hls⟩ := List.pairwise_cons.1 hl
    rw [List.orderedInsert]
    split_ifs with hlt
    · refine List.pairwise_cons.2 ⟨fun x hx => .inr ?_, hl⟩
      rcases List.mem_cons.1 hx with rfl | hx
      · exact hlt
      · rcases hb x hx with heq | hlt'
        · rwa [← heq]
        · exact trans_of lt hlt hlt'
    · refine List.pairwise_cons.2 ⟨fun x hx => ?_, ih hls⟩
      rcases (List.mem_orderedInsert _).1 hx with rfl | hx
      · rcases trichotomous_of lt (key x) (key b) with h | h | h
        · exact absurd h hlt
        · exact .inl h.symm
        · exact .inr h
      · exact hb x hx
/-- A list sorted by key that agrees with `l` key by key is the stable sort of `l`. -/
theorem eq_insertionSort {l l' : List α}
    (hl : l.Pairwise fun a b => key a = key b ∨ lt (key a) (key b))
    (h : ∀ k, l.filter (fun a => key a = k) = l'.filter (fun a => key a = k)) :
    l = l'.insertionSort fun a b => key a = key b ∨ lt (key a) (key b) := by
  have htotal : Std.Total fun a b : α => key a = key b ∨ lt (key a) (key b) := ⟨fun a b => by
    rcases trichotomous_of lt (key a) (key b) with h | h | h
    · exact .inl (.inr h)
    · exact .inl (.inl h)
    · exact .inr (.inr h)⟩
  have htrans : IsTrans α fun a b : α => key a = key b ∨ lt (key a) (key b) := ⟨fun a b c hab hbc => by
    rcases hab with hab | hab <;> rcases hbc with hbc | hbc
    · exact .inl (hab.trans hbc)
    · exact .inr (hab ▸ hbc)
    · exact .inr (hbc ▸ hab)
    · exact .inr (trans_of lt hab hbc)⟩
  refine eq_of_filter_eq hl (List.pairwise_insertionSort _ l') fun k => (h k).trans ?_
  -- the elements of key `k` are a sorted sublist of `l'`, so the sort keeps them in order
  have hsub : (l'.filter fun a => key a = k).Sublist
      (l'.insertionSort fun a b => key a = key b ∨ lt (key a) (key b)) := by
    refine List.sublist_insertionSort (List.pairwise_of_forall_mem_list fun a ha b hb => .inl ?_)
      List.filter_sublist
    simp only [List.mem_filter, decide_eq_true_eq] at ha hb
    rw [ha.2, hb.2]
  have hsub' := hsub.filter fun a => decide (key a = k)
  rw [List.filter_filter, show (fun a => decide (key a = k) && decide (key a = k)) =
    fun a => decide (key a = k) from by funext a; simp] at hsub'
  exact hsub'.eq_of_length ((List.perm_insertionSort _ l').filter _).length_eq.symm

end Stable

end Sweep

end Exchange
