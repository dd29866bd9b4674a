import Mathlib.Data.List.Nodup
import Mathlib.Logic.Relation
import Exchange.Lib.Ledger
import Exchange.MpmcSteps

/-!
# The chain of a linked queue

A history beside the steps keeps the values in the order their nodes were linked and what each pop returned in the
order of the exchanges of `head_`. The linked nodes form one chain from the stub on; `head_` is at the place of the
last pop in it and `tail_` at or past that place (`Core`). Here is what each access that changes the queue does to it.
-/

namespace Exchange.Mpmc

open Ledger

variable {τ α : Type*}

def QueueStep.thread : QueueStep τ α → τ
  | .push thread _ _ | .tryPop thread | .advance thread _ _ => thread

/-- What has happened to a queue. `links` and `chain` are the values and the nodes in the order they were linked,
the stub first among the nodes; `pops` has an entry for each exchange of `head_`, filled with what the pop returns,
and `counted` one for each link, filled when `size_` has it. `moves` counts the moves of `tail_`, `sawEmpty` tells
whether the list was empty when the thread last read `head->next`, and `called` is the value of its last push. -/
structure QueueHistory (τ α : Type*) where
  links : List α
  chain : List ℕ
  counted : List (Option Unit)
  pops : List (Option (Option α))
  moves : ℕ
  pushTicket : τ → Option ℕ
  popTicket : τ → Option ℕ
  sawEmpty : τ → Bool
  called : τ → Option α

namespace QueueHistory

def start : QueueHistory τ α :=
  ⟨[], [0], [], [], 0, fun _ => none, fun _ => none, fun _ => false, fun _ => none⟩

variable [DecidableEq τ] (h : QueueHistory τ α) (t : τ)

def link (value : α) (node : ℕ) : QueueHistory τ α :=
  { h with
    links := h.links ++ [value]
    chain := h.chain ++ [node]
    counted := h.counted ++ [none]
    pushTicket := Function.update h.pushTicket t (some h.counted.length) }

def count (k : ℕ) : QueueHistory τ α :=
  { h with
    counted := h.counted.set k (some ())
    pushTicket := Function.update h.pushTicket t none }

def call (value : α) : QueueHistory τ α :=
  { h with called := Function.update h.called t (some value) }

def look (isEmpty : Bool) : QueueHistory τ α :=
  { h with sawEmpty := Function.update h.sawEmpty t isEmpty }

def exchange : QueueHistory τ α :=
  { h with
    pops := h.pops ++ [none]
    popTicket := Function.update h.popTicket t (some h.pops.length) }

def finish (k : ℕ) (result : Option α) : QueueHistory τ α :=
  { h with
    pops := h.pops.set k (some result)
    popTicket := Function.update h.popTicket t none }

/-- The history after a step of a thread that took the queue from `q` to `q'`. A pop that ends without an exchange
has no entry. -/
def after (q : LinkedQueue α) (reply : StepReply α) (q' : LinkedQueue α) : QueueHistory τ α :=
  match reply with
  | .pending => if q'.tail = q.tail then h else { h with moves := h.moves + 1 }
  | .threw => h
  | .linked value node => h.link t value node
  | .pushed =>
    match h.pushTicket t with
    | none => h
    | some k => h.count t k
  | .readNext => h.look t (q.nodes q.head).next.isNone
  | .exchanged => h.exchange t
  | .popped result =>
    match h.popTicket t with
    | none => h
    | some k => h.finish t k result

def record (h : QueueHistory τ α) (s : QueueThreads τ α) (i : QueueStep τ α) (reply : StepReply α)
    (s' : QueueThreads τ α) : QueueHistory τ α :=
  match i, reply with
  | .push thread value _, .pending => (h.call thread value).after thread s.queue .pending s'.queue
  | i, reply => h.after i.thread s.queue reply s'.queue

end QueueHistory

/-- The nodes after `a` hold the values, in this order. -/
def Contents (nodes : ℕ → Node α) : ℕ → List α → Prop
  | a, [] => (nodes a).next = none
  | a, value :: values => ∃ b, (nodes a).next = some b ∧ (nodes b).value = some value ∧ Contents nodes b values

/-- The queue and its history: the chain, the places of `head_` and `tail_` in it, and what the two ledgers and
`size_` say. -/
structure Core (q : LinkedQueue α) (h : QueueHistory τ α) : Prop where
  nodup : h.chain.Nodup
  made : ∀ a ∈ h.chain, a < q.count
  next : ∀ i a, h.chain[i]? = some a → (q.nodes a).next = h.chain[i + 1]?
  bounded : q.count ≤ LinkedQueue.maxNodes
  chain_length : h.chain.length = h.links.length + 1
  counted_length : h.counted.length = h.links.length
  head : h.chain[h.pops.length]? = some q.head
  tail : h.chain[h.moves]? = some q.tail
  head_le_tail : h.pops.length ≤ h.moves
  waiting : ∀ k value a, h.pops.length ≤ k → h.links[k]? = some value → h.chain[k + 1]? = some a →
    (q.nodes a).value = some value
  returned : ∀ (k : ℕ) result, h.pops[k]? = some (some result) → ∃ value, h.links[k]? = some value ∧ result = some value
  pushes : Held h.counted h.pushTicket
  takes : Held h.pops h.popTicket
  size : q.size = UInt64.ofNat (filled h.counted) - UInt64.ofNat (filled h.pops)

structure Unlinked (q : LinkedQueue α) (h : QueueHistory τ α) (value : α) (a : ℕ) : Prop where
  made : a < q.count
  apart : a ∉ h.chain
  node : q.nodes a = ⟨none, some value⟩

namespace QueueHistory

variable (h : QueueHistory τ α) (t : τ)

/-- The thread has exchanged `head_` for the entry `k`, whose pop is due `value`. -/
def Due (k : ℕ) (value : α) : Prop := h.pushTicket t = none ∧ h.popTicket t = some k ∧ h.links[k]? = some value

def Follows (a b : ℕ) : Prop := ∃ i, h.chain[i]? = some a ∧ h.chain[i + 1]? = some b

end QueueHistory

theorem Core.start : Core (.new : LinkedQueue α) (.start : QueueHistory τ α) where
  nodup := List.pairwise_singleton ..
  made a ha := by
    rw [List.mem_singleton.1 ha]
    exact Nat.zero_lt_one
  next i a hi := by
    cases i with
    | zero => rfl
    | succ i => cases hi
  bounded := by
    change 1 ≤ LinkedQueue.maxNodes
    decide
  chain_length := rfl
  counted_length := rfl
  head := rfl
  tail := rfl
  head_le_tail := Nat.le_refl _
  waiting k value a _ hk := by cases hk
  returned k result hk := by cases hk
  pushes := .nil
  takes := .nil
  size := by
    change (0 : UInt64) = UInt64.ofNat 0 - UInt64.ofNat 0
    decide

variable {q q' : LinkedQueue α} {h : QueueHistory τ α} {t : τ}

theorem value_write_next (q : LinkedQueue α) (tail : ℕ) (next : Option ℕ) (a : ℕ) :
    ((q.write tail { q.nodes tail with next := next }).nodes a).value = (q.nodes a).value := by
  by_cases ha : a = tail
  · rw [ha, LinkedQueue.write_self]
  · rw [LinkedQueue.write_of_ne ha]

theorem next_write_value (q : LinkedQueue α) (node : ℕ) (value : Option α) (a : ℕ) :
    ((q.write node { q.nodes node with value := value }).nodes a).next = (q.nodes a).next := by
  by_cases ha : a = node
  · rw [ha, LinkedQueue.write_self]
  · rw [LinkedQueue.write_of_ne ha]

namespace Core

variable (hc : Core q h)
include hc

theorem place_unique {i j a : ℕ} (hi : h.chain[i]? = some a) (hj : h.chain[j]? = some a) : i = j :=
  (List.getElem?_inj (List.getElem?_eq_some_iff.1 hi).1 hc.nodup).1 (hi.trans hj.symm)

theorem follows_unique {a b i : ℕ} (hab : h.Follows a b) (hi : h.chain[i]? = some a) : h.chain[i + 1]? = some b := by
  obtain ⟨j, ha, hb⟩ := hab
  rwa [hc.place_unique hi ha]

theorem follows_next {a b : ℕ} (ha : a ∈ h.chain) (hnext : (q.nodes a).next = some b) : h.Follows a b := by
  obtain ⟨i, hi⟩ := List.mem_iff_getElem?.1 ha
  exact ⟨i, hi, (hc.next i a hi).symm.trans hnext⟩

theorem read {a : ℕ} (ha : a ∈ h.chain) : q.read a = some (q.nodes a) := if_pos (hc.made a ha)

theorem links_of_place {k a : ℕ} (hk : h.chain[k + 1]? = some a) : ∃ value, h.links[k]? = some value := by
  have hlt := (List.getElem?_eq_some_iff.1 hk).1
  rw [hc.chain_length] at hlt
  exact ⟨_, List.getElem?_eq_getElem (by omega)⟩

theorem head_of_last {i a : ℕ} (hi : i ≤ h.pops.length) (ha : h.chain[i]? = some a) (hnext : (q.nodes a).next = none) :
    q.head = a := by
  have hlast : h.chain.length ≤ i + 1 := List.getElem?_eq_none_iff.1 ((hc.next i a ha).symm.trans hnext)
  have hlt := (List.getElem?_eq_some_iff.1 hc.head).1
  have heq : i = h.pops.length := by omega
  rw [heq] at ha
  exact Option.some.inj (hc.head.symm.trans ha)

theorem links_lt : h.links.length < 2 ^ 64 := by
  have hlen := (List.subperm_of_subset hc.nodup fun a ha => List.mem_range.2 (hc.made a ha)).length_le
  have hbounded := hc.bounded
  rw [hc.chain_length, List.length_range] at hlen
  rw [LinkedQueue.maxNodes] at hbounded
  omega

theorem pops_le_links : h.pops.length ≤ h.links.length := by
  have hlt := (List.getElem?_eq_some_iff.1 hc.head).1
  rw [hc.chain_length] at hlt
  exact Nat.le_of_lt_succ hlt

/-- From a place of the chain that no pop has passed, the list holds what was linked there and later. -/
theorem contents {values : List α} : ∀ {k a : ℕ}, h.pops.length ≤ k → h.chain[k]? = some a → h.links.drop k = values →
    Contents q.nodes a values := by
  induction values with
  | nil =>
    intro k a _ ha hdrop
    have hle := List.drop_eq_nil_iff.1 hdrop
    rw [Contents, hc.next k a ha, List.getElem?_eq_none_iff, hc.chain_length]
    exact Nat.succ_le_succ hle
  | cons value values ih =>
    intro k a hk ha hdrop
    have hvalue : h.links[k]? = some value := by rw [← List.head?_drop, hdrop, List.head?_cons]
    have hlt := (List.getElem?_eq_some_iff.1 hvalue).1
    obtain ⟨b, hb⟩ : ∃ b, h.chain[k + 1]? = some b :=
      ⟨_, List.getElem?_eq_getElem (by rw [hc.chain_length]; exact Nat.succ_lt_succ hlt)⟩
    refine ⟨b, (hc.next k a ha).trans hb, hc.waiting k value b hk hvalue hb, ih (Nat.le_succ_of_le hk) hb ?_⟩
    rw [← List.tail_drop, hdrop, List.tail_cons]

theorem reaches {i j : ℕ} (hij : i ≤ j) {a b : ℕ} (ha : h.chain[i]? = some a) (hb : h.chain[j]? = some b) :
    Relation.ReflTransGen (fun a b => (q.nodes a).next = some b) a b := by
  induction hij generalizing b with
  | refl =>
    rw [Option.some.inj (ha.symm.trans hb)]
  | step _ ih =>
    have hlt := Nat.lt_of_succ_lt (List.getElem?_eq_some_iff.1 hb).1
    have hc' := List.getElem?_eq_getElem hlt
    exact (ih hc').tail ((hc.next _ _ hc').trans hb)

theorem heap (hcount : q.count ≤ q'.count) (hbounded : q'.count ≤ LinkedQueue.maxNodes)
    (hnext : ∀ a ∈ h.chain, (q'.nodes a).next = (q.nodes a).next)
    (hvalue : ∀ (k : ℕ) a, h.pops.length ≤ k → h.chain[k + 1]? = some a → (q'.nodes a).value = (q.nodes a).value)
    (hhead : q'.head = q.head) (htail : q'.tail = q.tail) (hsize : q'.size = q.size) : Core q' h :=
  { hc with
    made a ha := Nat.lt_of_lt_of_le (hc.made a ha) hcount
    next i a ha := (hnext a (List.mem_of_getElem? ha)).trans (hc.next i a ha)
    bounded := hbounded
    head := by rw [hhead]; exact hc.head
    tail := by rw [htail]; exact hc.tail
    waiting k value a hk hv ha := (hvalue k a hk ha).trans (hc.waiting k value a hk hv ha)
    size := by rw [hsize]; exact hc.size }

theorem moveTail {expected desired : ℕ} (htail : q.tail = expected) (hnext : h.Follows expected desired) :
    Core { q with tail := desired } { h with moves := h.moves + 1 } :=
  { hc with
    tail := hc.follows_unique hnext (htail ▸ hc.tail)
    head_le_tail := Nat.le_succ_of_le hc.head_le_tail }

variable [DecidableEq τ]

theorem call (value : α) : Core q (h.call t value) := { hc with }

theorem look (isEmpty : Bool) : Core q (h.look t isEmpty) := { hc with }

/-- `head_` moves on to the next node of the chain, which `tail_` has reached. -/
theorem exchange {head next : ℕ} (hhead : q.head = head) (hnext : h.Follows head next) (hbehind : h.pops.length < h.moves)
    (hticket : h.popTicket t = none) : Core { q with head := next } (h.exchange t) :=
  { hc with
    head := by
      rw [QueueHistory.exchange, List.length_append]
      exact hc.follows_unique hnext (hhead ▸ hc.head)
    head_le_tail := by
      rw [QueueHistory.exchange, List.length_append]
      exact hbehind
    waiting k value a hk hv ha := by
      rw [QueueHistory.exchange, List.length_append] at hk
      exact hc.waiting k value a (Nat.le_of_succ_le hk) hv ha
    returned k result hk := by
      rcases getElem?_concat.1 hk with hk | ⟨-, hk⟩
      · exact hc.returned k result hk
      · cases hk
    takes := hc.takes.issue hticket
    size := by
      rw [QueueHistory.exchange, filled_open]
      exact hc.size }

theorem count {k : ℕ} (hticket : h.pushTicket t = some k) : Core { q with size := q.size + 1 } (h.count t k) :=
  { hc with
    counted_length := by
      rw [QueueHistory.count, List.length_set]
      exact hc.counted_length
    pushes := hc.pushes.fill hticket ()
    size := by
      rw [QueueHistory.count, filled_set (hc.pushes.opened t k hticket), hc.size, UInt64.ofNat_add]
      grind }

theorem finish {k : ℕ} {value : α} (hdue : h.Due t k value) :
    Core { q with size := q.size - 1 } (h.finish t k (some value)) :=
  { hc with
    head := by
      rw [QueueHistory.finish, List.length_set]
      exact hc.head
    head_le_tail := by
      rw [QueueHistory.finish, List.length_set]
      exact hc.head_le_tail
    waiting k' value' a hk hv ha := by
      rw [QueueHistory.finish, List.length_set] at hk
      exact hc.waiting k' value' a hk hv ha
    returned k' result hk' := by
      by_cases hkk' : k = k'
      · subst hkk'
        rw [QueueHistory.finish, List.getElem?_set_self
          (List.getElem?_eq_some_iff.1 (hc.takes.opened t k hdue.2.1)).1] at hk'
        exact ⟨value, hdue.2.2, (Option.some.inj (Option.some.inj hk')).symm⟩
      · rw [QueueHistory.finish, List.getElem?_set_ne hkk'] at hk'
        exact hc.returned k' result hk'
    takes := hc.takes.fill hdue.2.1 (some value)
    size := by
      rw [QueueHistory.finish, filled_set (hc.takes.opened t k hdue.2.1), hc.size, UInt64.ofNat_add]
      grind }

omit [DecidableEq τ] in
theorem last {tail : ℕ} (htail : tail ∈ h.chain) (hlast : (q.nodes tail).next = none) :
    h.chain[h.links.length]? = some tail := by
  obtain ⟨n, hn⟩ := List.mem_iff_getElem?.1 htail
  have hlt := (List.getElem?_eq_some_iff.1 hn).1
  have hge : h.chain.length ≤ n + 1 := List.getElem?_eq_none_iff.1 ((hc.next n tail hn).symm.trans hlast)
  have hlen := hc.chain_length
  obtain rfl : n = h.links.length := by omega
  exact hn

omit [DecidableEq τ] in
theorem next_link {value : α} {node tail : ℕ} (hnode : Unlinked q h value node) (htail : tail ∈ h.chain)
    (hlast : (q.nodes tail).next = none) {i a : ℕ} (ha : (h.chain ++ [node])[i]? = some a) :
    ((q.write tail { q.nodes tail with next := some node }).nodes a).next = (h.chain ++ [node])[i + 1]? := by
  have hend := hc.last htail hlast
  have hlen := hc.chain_length
  rcases getElem?_concat.1 ha with ha | ⟨rfl, rfl⟩
  · by_cases hat : a = tail
    · subst hat
      have hi : i + 1 = h.chain.length := by rw [hc.place_unique ha hend, hlen]
      rw [LinkedQueue.write_self, hi, List.getElem?_concat_length]
    · -- `a` is not the last, so its successor is an old one
      have hi : i ≠ h.links.length := by
        rintro rfl
        exact hat (Option.some.inj (ha.symm.trans hend))
      have hlt := (List.getElem?_eq_some_iff.1 ha).1
      rw [LinkedQueue.write_of_ne hat, List.getElem?_append_left (by omega)]
      exact hc.next i a ha
  · have hne : node ≠ tail := fun heq => hnode.apart (heq ▸ htail)
    rw [LinkedQueue.write_of_ne hne, hnode.node, List.getElem?_eq_none (by simp)]

theorem link {value : α} {node tail : ℕ} (hnode : Unlinked q h value node) (htail : tail ∈ h.chain)
    (hlast : (q.nodes tail).next = none) (hticket : h.pushTicket t = none) :
    Core (q.write tail { q.nodes tail with next := some node }) (h.link t value node) where
  nodup := List.nodup_append.2 ⟨hc.nodup, List.pairwise_singleton _ _, fun a ha b hb hab =>
    hnode.apart (List.mem_singleton.1 hb ▸ hab ▸ ha)⟩
  made a ha := by
    rcases List.mem_append.1 ha with ha | ha
    · exact hc.made a ha
    · exact List.mem_singleton.1 ha ▸ hnode.made
  next i a ha := hc.next_link hnode htail hlast ha
  bounded := hc.bounded
  chain_length := by
    rw [QueueHistory.link, List.length_append, List.length_append, hc.chain_length]
    rfl
  counted_length := by
    rw [QueueHistory.link, List.length_append, List.length_append, hc.counted_length]
    rfl
  head := getElem?_concat.2 (.inl hc.head)
  tail := getElem?_concat.2 (.inl hc.tail)
  head_le_tail := hc.head_le_tail
  waiting k v a hk hv ha := by
    rw [value_write_next]
    have hlen := hc.chain_length
    rcases getElem?_concat.1 hv with hv | ⟨hk', rfl⟩ <;> rcases getElem?_concat.1 ha with ha | ⟨hk'', rfl⟩
    · exact hc.waiting k v a hk hv ha
    · have hlt := (List.getElem?_eq_some_iff.1 hv).1
      omega
    · have hlt := (List.getElem?_eq_some_iff.1 ha).1
      omega
    · rw [hnode.node]
  returned k result hk := by
    obtain ⟨v, hv, hresult⟩ := hc.returned k result hk
    exact ⟨v, getElem?_concat.2 (.inl hv), hresult⟩
  pushes := hc.pushes.issue hticket
  takes := hc.takes
  size := by
    rw [QueueHistory.link, filled_open]
    exact hc.size

end Core

end Exchange.Mpmc
