import Mathlib.Data.List.Nodup
import Mathlib.Logic.Function.Basic

-- Singly linked queues in a heap, with pointers to the first and the last node and a count.
namespace Sevent.Chain

variable {α : Type*}

structure Node (α : Type*) where
  next : Option Nat
  item : α

abbrev Heap (α : Type*) := Nat → Option (Node α)

-- What the pointers from `p` on lead to: the addresses of the nodes with their items.
def Linked (heap : Heap α) : Option Nat → List (Nat × α) → Prop
  | p, [] => p = none
  | p, (a, x) :: rest => p = some a ∧ ∃ next, heap a = some ⟨next, x⟩ ∧ Linked heap next rest

structure Queue (α : Type*) where
  heap : Heap α
  head : Option Nat
  tail : Option Nat
  count : Nat

namespace Queue

def empty : Queue α := ⟨fun _ => none, none, none, 0⟩

-- `t->next = a`
def link (heap : Heap α) (t a : Nat) : Heap α :=
  match heap t with
  | none => heap
  | some n => Function.update heap t (some { n with next := some a })

-- A new node at `a` behind the last one.
def push (q : Queue α) (a : Nat) (x : α) : Queue α :=
  let heap := Function.update q.heap a (some ⟨none, x⟩)
  match q.tail with
  | none => { heap := heap, head := some a, tail := some a, count := q.count + 1 }
  | some t => { heap := link heap t a, head := q.head, tail := some a, count := q.count + 1 }

def front (q : Queue α) : Option (Nat × α) :=
  match q.head with
  | none => none
  | some a => (q.heap a).map fun n => (a, n.item)

def setItem (q : Queue α) (a : Nat) (x : α) : Queue α :=
  match q.heap a with
  | none => q
  | some n => { q with heap := Function.update q.heap a (some { n with item := x }) }

-- The first node is unlinked and freed.
def pop (q : Queue α) : Queue α :=
  match q.head with
  | none => q
  | some a =>
      match q.heap a with
      | none => q
      | some n =>
          { heap := Function.update q.heap a none, head := n.next
            tail := if n.next = none then none else q.tail, count := q.count - 1 }

-- The nodes are handed over to whoever has taken the first pointer; the queue starts anew.
def detach (q : Queue α) : Queue α := { q with head := none, tail := none, count := 0 }

def free (q : Queue α) (a : Nat) : Queue α := { q with heap := Function.update q.heap a none }

-- The queue is what its pointers lead to; the last one is the last node, and no node occurs twice.
structure Holds (q : Queue α) (l : List (Nat × α)) : Prop where
  linked : Linked q.heap q.head l
  nodup : (l.map Prod.fst).Nodup
  tail : q.tail = (l.map Prod.fst).getLast?
  count : q.count = l.length

end Queue

-- ---- a node that is not met does not matter ----

theorem Linked.update {heap : Heap α} {p : Option Nat} {l : List (Nat × α)} (h : Linked heap p l)
    {a : Nat} (ha : a ∉ l.map Prod.fst) (n : Option (Node α)) :
    Linked (Function.update heap a n) p l := by
  induction l generalizing p with
  | nil => exact h
  | cons b l ih =>
      obtain ⟨b, x⟩ := b
      obtain ⟨hp, next, hb, hrest⟩ := h
      simp only [List.map_cons, List.mem_cons, not_or] at ha
      exact ⟨hp, next, by rw [Function.update_of_ne (Ne.symm ha.1), hb], ih hrest ha.2⟩

theorem Linked.link {heap : Heap α} {p : Option Nat} {l : List (Nat × α)} (h : Linked heap p l)
    {t : Nat} (ht : t ∉ l.map Prod.fst) (a : Nat) : Linked (Queue.link heap t a) p l := by
  unfold Queue.link
  split
  · exact h
  · exact h.update ht _

theorem Linked.mem {heap : Heap α} {p : Option Nat} {l : List (Nat × α)} (h : Linked heap p l)
    {a : Nat} (ha : a ∈ l.map Prod.fst) : heap a ≠ none := by
  induction l generalizing p with
  | nil => cases ha
  | cons b l ih =>
      obtain ⟨b, x⟩ := b
      obtain ⟨hp, next, hb, hrest⟩ := h
      rcases List.mem_cons.mp ha with rfl | ha
      · simp [hb]
      · exact ih hrest ha

theorem Queue.link_of_ne {heap : Heap α} {t a b : Nat} (h : b ≠ t) : link heap t a b = heap b := by
  unfold link
  cases heap t with
  | none => rfl
  | some n => exact Function.update_of_ne h _ _

-- Two chains from one pointer are the same.
theorem Linked.unique {heap : Heap α} {p : Option Nat} {l l' : List (Nat × α)} (h : Linked heap p l)
    (h' : Linked heap p l') : l = l' := by
  induction l generalizing p l' with
  | nil =>
      cases l' with
      | nil => rfl
      | cons b l' =>
          obtain ⟨b, x⟩ := b
          cases (show p = none from h).symm.trans h'.1
  | cons b l ih =>
      obtain ⟨b, x⟩ := b
      obtain ⟨hp, next, hb, hrest⟩ := h
      cases l' with
      | nil => cases hp.symm.trans (show p = none from h')
      | cons b' l' =>
          obtain ⟨b', x'⟩ := b'
          obtain ⟨hp', next', hb', hrest'⟩ := h'
          cases hp.symm.trans hp'
          cases hb.symm.trans hb'
          rw [ih hrest hrest']

-- A fresh node behind the last one of a chain.
theorem Linked.snoc {heap : Heap α} {p : Option Nat} {l : List (Nat × α)} {t : Nat}
    (h : Linked heap p l) (hn : (l.map Prod.fst).Nodup) (hlast : (l.map Prod.fst).getLast? = some t)
    {a : Nat} (ha : a ∉ l.map Prod.fst) (x : α) :
    Linked (Queue.link (Function.update heap a (some ⟨none, x⟩)) t a) p (l ++ [(a, x)]) := by
  induction l generalizing p with
  | nil => cases hlast
  | cons b l ih =>
      obtain ⟨b, y⟩ := b
      obtain ⟨hp, next, hb, hrest⟩ := h
      simp only [List.map_cons, List.nodup_cons, List.mem_cons, not_or] at hn ha
      have hba : b ≠ a := Ne.symm ha.1
      cases l with
      | nil =>
          obtain rfl : b = t := by simpa using hlast
          refine ⟨hp, some a, ?_, rfl, none, ?_, rfl⟩
          · simp [Queue.link, Function.update_of_ne hba, hb]
          · simp [Queue.link, Function.update_of_ne hba, hb, Function.update_of_ne (Ne.symm hba)]
      | cons c l =>
          have hlast' : ((c :: l).map Prod.fst).getLast? = some t := by
            simpa only [List.map_cons, List.getLast?_cons_cons] using hlast
          have htb : b ≠ t := fun h => hn.1 (h ▸ List.mem_of_getLast? hlast')
          refine ⟨hp, next, ?_, ih hrest hn.2 hlast' ha.2⟩
          rw [Queue.link_of_ne htb, Function.update_of_ne hba, hb]

namespace Queue

-- ---- free addresses ----

theorem push_free {q : Queue α} {a b : Nat} (hb : q.heap b = none) (hne : b ≠ a) (x : α) :
    (q.push a x).heap b = none := by
  have hupdate : Function.update q.heap a (some ⟨none, x⟩) b = none := by
    rw [Function.update_of_ne hne, hb]
  unfold push
  cases q.tail with
  | none => exact hupdate
  | some t =>
      by_cases ht : b = t
      · subst ht
        simp only [link, hupdate]
      · simp only [link_of_ne ht]
        exact hupdate

theorem push_count (q : Queue α) (a : Nat) (x : α) : (q.push a x).count = q.count + 1 := by
  unfold push
  cases q.tail <;> rfl

theorem push_allocated {q : Queue α} {a b : Nat} (hb : q.heap b ≠ none) (x : α) :
    (q.push a x).heap b ≠ none := by
  have hupdate : Function.update q.heap a (some ⟨none, x⟩) b ≠ none := by
    by_cases hne : b = a
    · simp [hne]
    · rwa [Function.update_of_ne hne]
  unfold push
  cases q.tail with
  | none => exact hupdate
  | some t =>
      by_cases ht : b = t
      · subst ht
        obtain ⟨n, hn⟩ := Option.ne_none_iff_exists'.mp hupdate
        simp [link, hn]
      · simp only [link_of_ne ht]
        exact hupdate

theorem pop_free {q : Queue α} {b : Nat} (hb : q.heap b = none) : q.pop.heap b = none := by
  unfold pop
  cases q.head with
  | none => exact hb
  | some a =>
      cases hn : q.heap a with
      | none => simpa only [hn] using hb
      | some n =>
          simp only [hn]
          by_cases ha : b = a
          · subst ha
            rw [Function.update_self]
          · rw [Function.update_of_ne ha, hb]

theorem setItem_free {q : Queue α} {a b : Nat} (hb : q.heap b = none) (x : α) :
    (q.setItem a x).heap b = none := by
  unfold setItem
  split
  · exact hb
  · rename_i n hn
    have hne : b ≠ a := by
      rintro rfl
      cases hb.symm.trans hn
    dsimp only
    rw [Function.update_of_ne hne, hb]

-- ---- a chain that has been detached ----

theorem detach_holds (q : Queue α) : q.detach.Holds [] := ⟨rfl, List.nodup_nil, rfl, rfl⟩

-- Nodes outside of the queue stay as they are.
theorem push_linked {q : Queue α} {p : Option Nat} {r : List (Nat × α)} (h : Linked q.heap p r)
    {a : Nat} (ha : q.heap a = none) (ht : ∀ t, q.tail = some t → t ∉ r.map Prod.fst) (x : α) :
    Linked (q.push a x).heap p r := by
  have hfresh : a ∉ r.map Prod.fst := fun hmem => h.mem hmem ha
  have hnew := h.update hfresh (some ⟨none, x⟩)
  unfold push
  cases hq : q.tail with
  | none => exact hnew
  | some t => exact hnew.link (ht t hq) a

namespace Holds

variable {q : Queue α} {l : List (Nat × α)}

theorem free (h : q.Holds l) {a : Nat} (ha : a ∉ l.map Prod.fst) : (q.free a).Holds l :=
  ⟨h.linked.update ha none, h.nodup, h.tail, h.count⟩

theorem tail_mem (h : q.Holds l) {t : Nat} (ht : q.tail = some t) : t ∈ l.map Prod.fst :=
  List.mem_of_getLast? (h.tail.symm.trans ht)

theorem empty : Holds (Queue.empty : Queue α) [] := ⟨rfl, List.nodup_nil, rfl, rfl⟩

theorem head_eq_none (h : q.Holds l) : q.head = none ↔ l = [] := by
  cases l with
  | nil => exact ⟨fun _ => rfl, fun _ => h.linked⟩
  | cons b l => simp [h.linked.1]

theorem tail_eq_none (h : q.Holds l) : q.tail = none ↔ l = [] := by
  rw [h.tail, List.getLast?_eq_none_iff, List.map_eq_nil_iff]

theorem front (h : q.Holds l) : q.front = l.head? := by
  cases l with
  | nil =>
      have hnone : q.head = none := h.linked
      simp [Queue.front, hnone]
  | cons b l =>
      obtain ⟨b, x⟩ := b
      obtain ⟨hp, next, hb, -⟩ := h.linked
      simp [Queue.front, hp, hb]

theorem push (h : q.Holds l) {a : Nat} (ha : q.heap a = none) (x : α) :
    (q.push a x).Holds (l ++ [(a, x)]) := by
  have hfresh : a ∉ l.map Prod.fst := fun hmem => h.linked.mem hmem ha
  have hnodup : ((l ++ [(a, x)]).map Prod.fst).Nodup := by
    rw [List.map_append, List.map_singleton, ← List.concat_eq_append]
    exact List.Nodup.concat hfresh h.nodup
  unfold Queue.push
  cases ht : q.tail with
  | none =>
      obtain rfl := h.tail_eq_none.mp ht
      refine ⟨⟨rfl, none, by simp, rfl⟩, hnodup, by simp, ?_⟩
      simp [h.count]
  | some t =>
      refine ⟨h.linked.snoc h.nodup (h.tail.symm.trans ht) hfresh x, hnodup, by simp, ?_⟩
      simp [h.count]

theorem pop {a : Nat} {x : α} (h : q.Holds ((a, x) :: l)) : q.pop.Holds l := by
  obtain ⟨hp, next, hb, hrest⟩ := h.linked
  have hnodup := h.nodup
  rw [List.map_cons, List.nodup_cons] at hnodup
  unfold Queue.pop
  simp only [hp, hb]
  refine ⟨hrest.update hnodup.1 none, hnodup.2, ?_, by simp [h.count]⟩
  cases l with
  | nil =>
      have hnext : next = none := hrest
      simp [hnext]
  | cons b l =>
      obtain ⟨b, y⟩ := b
      have hnext : next = some b := hrest.1
      simp [hnext, h.tail]

theorem setItem {a : Nat} {x : α} (h : q.Holds ((a, x) :: l)) (y : α) :
    (q.setItem a y).Holds ((a, y) :: l) := by
  obtain ⟨hp, next, hb, hrest⟩ := h.linked
  have hnodup := h.nodup
  rw [List.map_cons, List.nodup_cons] at hnodup
  unfold Queue.setItem
  simp only [hb]
  refine ⟨⟨hp, next, by simp, hrest.update hnodup.1 _⟩, h.nodup, h.tail, h.count⟩

end Holds

end Queue

-- ---- a list with a pointer to its first node only ----

namespace Heap

variable {heap : Heap α}

-- The `next` field of a node.
def next (heap : Heap α) (a : Nat) : Option Nat := (heap a).bind (·.next)

def setNext (heap : Heap α) (a : Nat) (p : Option Nat) : Heap α :=
  match heap a with
  | none => heap
  | some n => Function.update heap a (some { n with next := p })

def store (heap : Heap α) (a : Nat) (x : α) : Heap α :=
  match heap a with
  | none => heap
  | some n => Function.update heap a (some { n with item := x })

def item (heap : Heap α) (a : Nat) : Option α := (heap a).map (·.item)

-- Every node was allocated before the one that leads to it.
def Falls (heap : Heap α) : Prop := ∀ a b, heap.next a = some b → b < a

theorem setNext_next (heap : Heap α) (a : Nat) (p : Option Nat) (b : Nat) :
    (heap.setNext a p).next b = heap.next b ∨ b = a ∧ (heap.setNext a p).next b = p := by
  unfold setNext
  cases ha : heap a with
  | none => exact .inl rfl
  | some n =>
      by_cases hb : b = a
      · right
        simp [next, hb]
      · left
        simp [next, Function.update_of_ne hb]

theorem setNext_of_ne {a b : Nat} (h : b ≠ a) (p : Option Nat) : heap.setNext a p b = heap b := by
  unfold setNext
  cases heap a with
  | none => rfl
  | some n => exact Function.update_of_ne h _ _

@[simp] theorem setNext_item (heap : Heap α) (a : Nat) (p : Option Nat) (b : Nat) :
    (heap.setNext a p).item b = heap.item b := by
  by_cases hb : b = a
  · subst hb
    unfold setNext
    cases hn : heap b with
    | none => simp [item, hn]
    | some n => simp [item, hn]
  · rw [item, setNext_of_ne hb, item]

@[simp] theorem store_next (heap : Heap α) (a : Nat) (x : α) (b : Nat) : (heap.store a x).next b = heap.next b := by
  unfold store
  cases ha : heap a with
  | none => rfl
  | some n =>
      by_cases hb : b = a
      · simp [next, hb, ha]
      · simp [next, Function.update_of_ne hb]

theorem store_item_of_ne {a b : Nat} (h : b ≠ a) (x : α) : (heap.store a x).item b = heap.item b := by
  unfold store
  cases heap a with
  | none => rfl
  | some n => exact congrArg (Option.map _) (Function.update_of_ne h _ _)

theorem store_item {a : Nat} {y : α} (h : heap.item a = some y) (x : α) : (heap.store a x).item a = some x := by
  obtain ⟨n, hn, -⟩ := Option.map_eq_some_iff.mp h
  simp [store, item, hn]

theorem store_store (heap : Heap α) (a : Nat) (x y : α) : (heap.store a x).store a y = heap.store a y := by
  cases hn : heap a with
  | none => simp [store, hn]
  | some n => simp [store, hn]

theorem store_isSome (heap : Heap α) (a : Nat) (x : α) (b : Nat) :
    ((heap.store a x).item b).isSome = (heap.item b).isSome := by
  by_cases hb : b = a
  · subst hb
    cases hn : heap b with
    | none => simp [store, item, hn]
    | some n => simp [store, item, hn]
  · rw [store_item_of_ne hb]

-- A new node at `a`.
def insert (heap : Heap α) (a : Nat) (p : Option Nat) (x : α) : Heap α := Function.update heap a (some ⟨p, x⟩)

@[simp] theorem insert_next (heap : Heap α) (a : Nat) (p : Option Nat) (x : α) : (heap.insert a p x).next a = p := by
  simp [insert, next]

@[simp] theorem insert_item (heap : Heap α) (a : Nat) (p : Option Nat) (x : α) :
    (heap.insert a p x).item a = some x := by
  simp [insert, item]

theorem insert_of_ne {a b : Nat} (h : b ≠ a) (p : Option Nat) (x : α) :
    (heap.insert a p x).next b = heap.next b ∧ (heap.insert a p x).item b = heap.item b := by
  have hsame : heap.insert a p x b = heap b := Function.update_of_ne h _ _
  exact ⟨by rw [next, hsame, next], by rw [item, hsame, item]⟩

theorem insert_falls (hf : heap.Falls) {a : Nat} {p : Option Nat} (hp : ∀ b, p = some b → b < a) (x : α) :
    (heap.insert a p x).Falls := by
  intro b c hbc
  by_cases hb : b = a
  · subst hb
    rw [insert_next] at hbc
    exact hp c hbc
  · rw [(insert_of_ne hb p x).1] at hbc
    exact hf b c hbc

-- What the pointers from `p` on lead to.
def Path (heap : Heap α) : Option Nat → List Nat → Prop
  | p, [] => p = none
  | p, a :: rest => p = some a ∧ (heap.item a).isSome ∧ Path heap (heap.next a) rest

namespace Path

variable {p : Option Nat} {l : List Nat}

-- Only the pointers on the way matter.
theorem congr {heap' : Heap α} (h : heap.Path p l)
    (hsame : ∀ a ∈ l, heap'.next a = heap.next a ∧ (heap'.item a).isSome = (heap.item a).isSome) :
    heap'.Path p l := by
  induction l generalizing p with
  | nil => exact h
  | cons a rest ih =>
      obtain ⟨hp, ha, hrest⟩ := h
      obtain ⟨hnext, hitem⟩ := hsame a List.mem_cons_self
      refine ⟨hp, hitem.trans ha, ?_⟩
      rw [hnext]
      exact ih hrest fun b hb => hsame b (List.mem_cons_of_mem a hb)

theorem store (h : heap.Path p l) (a : Nat) (x : α) : (heap.store a x).Path p l :=
  h.congr fun b _ => ⟨store_next heap a x b, store_isSome heap a x b⟩

-- The way from a node on it.
theorem suffix {front : List Nat} {a : Nat} (h : heap.Path p (front ++ a :: l)) : heap.Path (some a) (a :: l) := by
  induction front generalizing p with
  | nil => exact ⟨rfl, h.2⟩
  | cons b front ih => exact ih h.2.2

theorem insert (h : heap.Path p l) {a : Nat} (ha : a ∉ l) (x : α) : (heap.insert a p x).Path (some a) (a :: l) := by
  refine ⟨rfl, by rw [insert_item]; rfl, ?_⟩
  rw [insert_next]
  refine h.congr fun b hb => ?_
  have hne : b ≠ a := fun hba => ha (hba ▸ hb)
  obtain ⟨hnext, hitem⟩ : (heap.insert a p x).next b = heap.next b ∧ (heap.insert a p x).item b = heap.item b :=
    insert_of_ne hne p x
  exact ⟨hnext, by rw [hitem]⟩

theorem head (h : heap.Path p l) : p = l.head? := by
  cases l with
  | nil => exact h
  | cons a rest => exact h.1

theorem below (h : heap.Path p l) (hf : heap.Falls) {k : Nat} (hk : ∀ a, p = some a → a < k) : ∀ b ∈ l, b < k := by
  induction l generalizing p k with
  | nil => exact fun b hb => absurd hb List.not_mem_nil
  | cons a rest ih =>
      obtain ⟨hp, -, hrest⟩ := h
      have ha : a < k := hk a hp
      intro b hb
      rcases List.mem_cons.mp hb with rfl | hb
      · exact ha
      · exact ih hrest (fun c hc => Nat.lt_trans (hf a c hc) ha) b hb

theorem nodup (h : heap.Path p l) (hf : heap.Falls) : l.Nodup := by
  induction l generalizing p with
  | nil => exact List.nodup_nil
  | cons a rest ih =>
      obtain ⟨-, -, hrest⟩ := h
      refine List.nodup_cons.mpr ⟨fun ha => ?_, ih hrest⟩
      exact Nat.lt_irrefl a (hrest.below hf (hf a) a ha)

theorem length_le (h : heap.Path p l) (hf : heap.Falls) {k : Nat} (hk : ∀ a, p = some a → a < k) : l.length ≤ k := by
  induction l generalizing p k with
  | nil => exact Nat.zero_le k
  | cons a rest ih =>
      obtain ⟨hp, -, hrest⟩ := h
      have hle := ih hrest (hf a)
      have ha : a < k := hk a hp
      rw [List.length_cons]
      omega

theorem mem (h : heap.Path p l) {a : Nat} (ha : a ∈ l) : (heap.item a).isSome := by
  induction l generalizing p with
  | nil => cases ha
  | cons b rest ih =>
      obtain ⟨-, hb, hrest⟩ := h
      rcases List.mem_cons.mp ha with rfl | ha
      · exact hb
      · exact ih hrest ha

end Path

-- The pointer that leads to `a`, from the pointer `p` in the node `prev` on (no node: the list's own).
def seek (heap : Heap α) (a : Nat) : Nat → Option Nat → Option Nat → Option (Option Nat)
  | 0, _, _ => none
  | fuel + 1, prev, p =>
      match p with
      | none => none
      | some b => if b = a then some prev else seek heap a fuel (some b) (heap.next b)

-- `a` is taken out; its own `next` stays.
def unlink (fuel : Nat) (heap : Heap α) (head : Option Nat) (a : Nat) : Heap α × Option Nat :=
  match seek heap a fuel none head with
  | none => (heap, head)
  | some none => (heap, heap.next a)
  | some (some b) => (heap.setNext b (heap.next a), head)

@[simp] theorem unlink_item (fuel : Nat) (heap : Heap α) (head : Option Nat) (a b : Nat) :
    (unlink fuel heap head a).1.item b = heap.item b := by
  unfold unlink
  split
  · rfl
  · rfl
  · exact setNext_item heap _ _ b

theorem seek_found {a fuel : Nat} {prev p q : Option Nat} (h : seek heap a fuel prev p = some q) :
    q = prev ∧ p = some a ∨ ∃ b, q = some b ∧ heap.next b = some a := by
  induction fuel generalizing prev p with
  | zero => cases h
  | succ fuel ih =>
      cases p with
      | none => cases h
      | some b =>
          rw [seek] at h
          split at h
          · rename_i hb
            exact .inl ⟨(Option.some.inj h).symm, congrArg some hb⟩
          · rcases ih h with ⟨hq, hnext⟩ | hfound
            · exact .inr ⟨b, hq, hnext⟩
            · exact .inr hfound

theorem unlink_falls {fuel a : Nat} {head : Option Nat} (hf : heap.Falls) :
    (unlink fuel heap head a).1.Falls := by
  unfold unlink
  split
  · exact hf
  · exact hf
  · rename_i b hseek
    have hlead : heap.next b = some a := by
      rcases seek_found hseek with ⟨hnone, -⟩ | ⟨b', hb, hnext⟩
      · cases hnone
      · cases hb
        exact hnext
    intro x y hxy
    rcases setNext_next heap b (heap.next a) x with hsame | ⟨rfl, hnew⟩
    · exact hf x y (hsame.symm.trans hxy)
    · exact Nat.lt_trans (hf a y (hnew.symm.trans hxy)) (hf x a hlead)

-- With enough fuel the search comes to the end of the way.
theorem seek_eq {a fuel : Nat} {prev p : Option Nat} {l : List Nat} (h : heap.Path p l) (hfuel : l.length < fuel) :
    (a ∉ l ∧ seek heap a fuel prev p = none) ∨
      ∃ front back, l = front ++ a :: back ∧ a ∉ front ∧ seek heap a fuel prev p = some (front.getLast?.or prev) := by
  induction l generalizing fuel prev p with
  | nil =>
      obtain ⟨fuel, rfl⟩ := Nat.exists_eq_add_of_lt hfuel
      have hp : p = none := h
      left
      rw [hp]
      exact ⟨List.not_mem_nil, by simp [seek]⟩
  | cons b rest ih =>
      obtain ⟨hp, -, hrest⟩ := h
      obtain ⟨fuel, rfl⟩ : ∃ k, fuel = k + 1 := ⟨fuel - 1, by omega⟩
      have hlen : rest.length < fuel := by
        rw [List.length_cons] at hfuel
        omega
      rw [hp, seek]
      by_cases hb : b = a
      · right
        refine ⟨[], rest, by rw [hb]; rfl, List.not_mem_nil, ?_⟩
        rw [if_pos hb]
        rfl
      rw [if_neg hb]
      rcases @ih fuel (some b) (heap.next b) hrest hlen with ⟨hno, hseek⟩ | ⟨front, back, hl, hfront, hseek⟩
      · left
        exact ⟨fun hmem => (List.mem_cons.mp hmem).elim (fun hab => hb hab.symm) hno, hseek⟩
      · right
        refine ⟨b :: front, back, by rw [hl]; rfl, fun hmem => ?_, ?_⟩
        · exact (List.mem_cons.mp hmem).elim (fun hab => hb hab.symm) hfront
        · rw [hseek]
          cases front with
          | nil => rfl
          | cons c front => simp [List.getLast?_cons]

theorem path_setNext {p : Option Nat} {front back : List Nat} {b a : Nat}
    (h : heap.Path p (front ++ b :: a :: back)) (hn : (front ++ b :: a :: back).Nodup) :
    (heap.setNext b (heap.next a)).Path p (front ++ b :: back) := by
  induction front generalizing p with
  | nil =>
      obtain ⟨hp, hb, hpa, ha, hrest⟩ := h
      have hback : b ∉ back := fun hmem => (List.nodup_cons.mp hn).1 (List.mem_cons_of_mem a hmem)
      refine ⟨hp, by rw [setNext_item]; exact hb, ?_⟩
      have hnext : (heap.setNext b (heap.next a)).next b = heap.next a := by
        obtain ⟨n, hn⟩ := Option.isSome_iff_exists.mp hb
        obtain ⟨m, hm, -⟩ := Option.map_eq_some_iff.mp hn
        simp [setNext, next, hm]
      rw [hnext]
      refine hrest.congr fun c hc => ⟨?_, by rw [setNext_item]⟩
      have hcb : c ≠ b := by
        rintro rfl
        exact hback hc
      rw [next, setNext_of_ne hcb, next]
  | cons c front ih =>
      obtain ⟨hp, hc, hrest⟩ := h
      obtain ⟨hfresh, hn⟩ := List.nodup_cons.mp hn
      have hcb : c ≠ b := by
        rintro rfl
        exact hfresh (List.mem_append_right front List.mem_cons_self)
      refine ⟨hp, by rw [setNext_item]; exact hc, ?_⟩
      have hnext : (heap.setNext b (heap.next a)).next c = heap.next c := by rw [next, setNext_of_ne hcb, next]
      rw [hnext]
      exact ih hrest hn

theorem unlink_path {fuel a : Nat} {head : Option Nat} {l : List Nat} (h : heap.Path head l) (hn : l.Nodup)
    (hfuel : l.length < fuel) : (unlink fuel heap head a).1.Path (unlink fuel heap head a).2 (l.erase a) := by
  unfold unlink
  have hsought : (a ∉ l ∧ seek heap a fuel none head = none) ∨ ∃ front back, l = front ++ a :: back ∧ a ∉ front ∧
      seek heap a fuel none head = some (front.getLast?.or none) := seek_eq h hfuel
  rcases hsought with ⟨hno, hseek⟩ | ⟨front, back, rfl, hfront, hseek⟩
  · rw [hseek, List.erase_of_not_mem hno]
    exact h
  rw [hseek, List.erase_append_right _ hfront, List.erase_cons_head, Option.or_none]
  cases hlast : front.getLast? with
  | none =>
      obtain rfl := List.getLast?_eq_none_iff.mp hlast
      exact h.2.2
  | some b =>
      obtain ⟨front, rfl⟩ := List.getLast?_eq_some_iff.mp hlast
      rw [List.append_assoc] at h hn ⊢
      exact path_setNext h hn

end Heap

end Sevent.Chain
