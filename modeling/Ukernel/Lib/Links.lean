import Mathlib.Data.List.Basic
import Mathlib.Data.List.Nodup
import Mathlib.Logic.Function.Basic

/-!
# Rings of links

Circular doubly linked lists over nodes of any type. Every node has two links, whether it is in a
list or not; a list is a ring of nodes through a head. The operations are those of an intrusive list
and do what they are told: a node that is inserted twice spoils the ring it was in.

## Main definitions

* `Links`: the two links of every node
* `Links.init`, `Links.add`, `Links.del`: the operations
* `LinkRing`: a head with the nodes that follow it

## Main results

* `LinkRing.add`, `LinkRing.del`: what the operations do to a ring
* `LinkRing.add_of_disjoint`, `LinkRing.del_of_disjoint`: what they leave alone
* `Headed.add`, `Headed.del`: the node before which a head stands is the one that knows it, in
  spoilt rings too
-/

namespace Ukernel.Lib

/-- The two links of a node. -/
structure Neighbours (α : Type*) where
  prev : α
  next : α
  deriving DecidableEq

/-- The links of all nodes. -/
def Links (α : Type*) := α → Neighbours α

namespace Links

variable {α : Type*} [DecidableEq α]

def setPrev (l : Links α) (n p : α) : Links α := Function.update l n ⟨p, (l n).next⟩

def setNext (l : Links α) (n p : α) : Links α := Function.update l n ⟨(l n).prev, p⟩

/-- Make a node a ring of its own. -/
def init (l : Links α) (node : α) : Links α := Function.update l node ⟨node, node⟩

/-- Put `new` after `head`. -/
def add (l : Links α) (new head : α) : Links α :=
  let l := l.setNext new (l head).next
  let l := l.setPrev new head
  let l := l.setPrev (l head).next new
  l.setNext head new

/-- Unlink a node and make it a ring of its own. -/
def del (l : Links α) (node : α) : Links α :=
  let l := l.setNext (l node).prev (l node).next
  let l := l.setPrev (l node).next (l node).prev
  l.init node

/-- Nothing follows the head. -/
def Empty (l : Links α) (head : α) : Prop := (l head).next = head

instance (l : Links α) (head : α) : Decidable (l.Empty head) :=
  inferInstanceAs (Decidable (_ = _))

variable {l : Links α} {n h x : α}

theorem next_setPrev (y p : α) : (l.setPrev y p x).next = (l x).next := by
  unfold setPrev
  by_cases hx : x = y <;> simp [Function.update, hx]

theorem prev_setNext (y p : α) : (l.setNext y p x).prev = (l x).prev := by
  unfold setNext
  by_cases hx : x = y <;> simp [Function.update, hx]

theorem prev_setPrev (y p : α) : (l.setPrev y p x).prev = if x = y then p else (l x).prev := by
  unfold setPrev
  by_cases hx : x = y <;> simp [Function.update, hx]

theorem next_setNext (y p : α) : (l.setNext y p x).next = if x = y then p else (l x).next := by
  unfold setNext
  by_cases hx : x = y <;> simp [Function.update, hx]

theorem next_init : (l.init n x).next = if x = n then n else (l x).next := by
  unfold init
  by_cases hx : x = n <;> simp [Function.update, hx]

theorem prev_init : (l.init n x).prev = if x = n then n else (l x).prev := by
  unfold init
  by_cases hx : x = n <;> simp [Function.update, hx]

theorem next_add :
    (l.add n h x).next = if x = h then n else if x = n then (l h).next else (l x).next := by
  simp only [add, next_setNext, next_setPrev]

theorem prev_add (hn : n ≠ h) :
    (l.add n h x).prev = if x = (l h).next then n else if x = n then h else (l x).prev := by
  simp only [add, prev_setNext, prev_setPrev, next_setPrev, next_setNext, if_neg hn.symm]

theorem next_del :
    (l.del n x).next = if x = n then n else if x = (l n).prev then (l n).next else (l x).next := by
  simp only [del, next_init, next_setPrev, next_setNext]

theorem prev_del :
    (l.del n x).prev = if x = n then n else if x = (l n).next then (l n).prev else (l x).prev := by
  simp only [del, prev_init, prev_setPrev, prev_setNext, next_setNext]
  by_cases hn : n = (l n).prev
  · simp [← hn]
  · simp [hn]

end Links

/-! ## Rings -/

variable {α : Type*}

/-- The nodes `ns` lie between `a` and `b` in this order. -/
def Chain (l : Links α) : α → List α → α → Prop
  | a, [], b => (l a).next = b ∧ (l b).prev = a
  | a, n :: ns, b => ((l a).next = n ∧ (l n).prev = a) ∧ Chain l n ns b

/-- A head with the nodes that follow it. -/
structure LinkRing (l : Links α) (h : α) (ns : List α) : Prop where
  chain : Chain l h ns h
  nodup : (h :: ns).Nodup

variable {l l' : Links α} {a b h n : α} {ns xs ys : List α}

theorem chain_append :
    Chain l a (xs ++ n :: ys) b ↔ Chain l a xs n ∧ Chain l n ys b := by
  induction xs generalizing a with
  | nil => exact Iff.rfl
  | cons x xs ih => simp only [List.cons_append, Chain, ih, and_assoc]

/-- A chain only depends on the links along it. -/
theorem Chain.congr (hp : Chain l a ns b) (hnext : ∀ x ∈ a :: ns, (l' x).next = (l x).next)
    (hprev : ∀ x ∈ ns ++ [b], (l' x).prev = (l x).prev) : Chain l' a ns b := by
  induction ns generalizing a with
  | nil => exact ⟨(hnext a List.mem_cons_self).trans hp.1, (hprev b (by simp)).trans hp.2⟩
  | cons n ns ih =>
    refine ⟨⟨(hnext a List.mem_cons_self).trans hp.1.1, (hprev n (by simp)).trans hp.1.2⟩, ?_⟩
    exact ih hp.2 (fun x hx => hnext x (List.mem_cons_of_mem _ hx))
      fun x hx => hprev x (List.mem_cons_of_mem _ hx)

theorem Chain.next_mem (hp : Chain l a ns b) : (l a).next ∈ ns ++ [b] := by
  cases ns with
  | nil => simp [hp.1]
  | cons n ns => simp [hp.1.1]

theorem Chain.mem_neighbours (hp : Chain l a ns b) : ∀ x ∈ ns, (l x).prev ∈ a :: ns ∧
    (l x).next ∈ ns ++ [b] := by
  induction ns generalizing a with
  | nil => simp
  | cons n ns ih =>
    intro x hx
    rcases List.mem_cons.mp hx with rfl | hx
    · exact ⟨by simp [hp.1.2], List.mem_cons_of_mem _ hp.2.next_mem⟩
    · obtain ⟨h₁, h₂⟩ := ih hp.2 x hx
      exact ⟨List.mem_cons_of_mem _ h₁, List.mem_cons_of_mem _ h₂⟩

theorem Chain.prev_mem (hp : Chain l a xs n) : (l n).prev ∈ a :: xs := by
  induction xs generalizing a with
  | nil => simp [hp.2]
  | cons x xs ih => exact List.mem_cons_of_mem _ (ih hp.2)

/-- The nodes up to a given one are determined by the links. -/
theorem Chain.unique {ns' : List α} (hp : Chain l a ns b) (hp' : Chain l a ns' b) (hb : b ∉ ns)
    (hb' : b ∉ ns') : ns = ns' := by
  induction ns generalizing a ns' with
  | nil =>
    cases ns' with
    | nil => rfl
    | cons n' ns' =>
      have heq : n' = b := hp'.1.1.symm.trans hp.1
      exact absurd (heq ▸ List.mem_cons_self) hb'
  | cons n ns ih =>
    cases ns' with
    | nil =>
      have heq : n = b := hp.1.1.symm.trans hp'.1
      exact absurd (heq ▸ List.mem_cons_self) hb
    | cons n' ns' =>
      have heq : n = n' := hp.1.1.symm.trans hp'.1.1
      subst heq
      rw [ih hp.2 hp'.2 (fun h => hb (List.mem_cons_of_mem _ h))
        fun h => hb' (List.mem_cons_of_mem _ h)]

namespace LinkRing

theorem unique {ns' : List α} (hr : LinkRing l h ns) (hr' : LinkRing l h ns') : ns = ns' :=
  hr.chain.unique hr'.chain (List.nodup_cons.mp hr.nodup).1 (List.nodup_cons.mp hr'.nodup).1

/-- Any node of a ring may be taken for its head. -/
theorem rotate (hr : LinkRing l h (xs ++ n :: ys)) : LinkRing l n (ys ++ h :: xs) := by
  have hperm : ((h :: xs) ++ (n :: ys)).Perm ((n :: ys) ++ (h :: xs)) := List.perm_append_comm
  exact ⟨chain_append.mpr (chain_append.mp hr.chain).symm, hperm.nodup_iff.mp hr.nodup⟩

theorem congr (hr : LinkRing l h ns) (heq : ∀ x ∈ h :: ns, l' x = l x) : LinkRing l' h ns := by
  refine ⟨hr.chain.congr (fun x hx => by rw [heq x hx]) fun x hx => ?_, hr.nodup⟩
  rw [heq x (by simpa [or_comm] using hx)]

theorem empty_iff (hr : LinkRing l h ns) : l.Empty h ↔ ns = [] := by
  unfold Links.Empty
  cases ns with
  | nil => simp [hr.chain.1]
  | cons n ns =>
    rw [hr.chain.1.1]
    refine iff_of_false (fun heq => ?_) (List.cons_ne_nil _ _)
    exact (List.nodup_cons.mp hr.nodup).1 (heq ▸ List.mem_cons_self)

/-- The node before the head is the last one. -/
theorem prev_eq (hr : LinkRing l h (xs ++ [n])) : (l h).prev = n := (chain_append.mp hr.chain).2.2

theorem mem_neighbours (hr : LinkRing l h ns) {x : α} (hx : x ∈ h :: ns) :
    (l x).prev ∈ h :: ns ∧ (l x).next ∈ h :: ns := by
  have hswap {y : α} (hy : y ∈ ns ++ [h]) : y ∈ h :: ns := by simpa [or_comm] using hy
  rcases List.mem_cons.mp hx with rfl | hx
  · refine ⟨?_, hswap hr.chain.next_mem⟩
    rcases List.eq_nil_or_concat ns with rfl | ⟨ys, y, rfl⟩
    · simp [hr.chain.2]
    · rw [List.concat_eq_append] at hr ⊢
      simp [hr.prev_eq]
  · obtain ⟨h₁, h₂⟩ := hr.chain.mem_neighbours x hx
    exact ⟨h₁, hswap h₂⟩

end LinkRing

variable [DecidableEq α]

/-- A node leaves a chain, the ends of which may be the same. -/
theorem Chain.del (hp : Chain l a (xs ++ n :: ys) b) (hnodup : (a :: (xs ++ n :: ys)).Nodup)
    (hb : b ∉ xs ++ n :: ys) : Chain (l.del n) a (xs ++ ys) b := by
  have hmem (x : α) (hx : x ∈ ys) : x ∈ xs ++ n :: ys := by simp [hx]
  obtain ⟨ha, htail⟩ := List.nodup_cons.mp hnodup
  have han : a ≠ n := fun heq => ha (by simp [heq])
  obtain ⟨hbefore, hafter⟩ := chain_append.mp hp
  induction xs generalizing a with
  | nil =>
    have hpa : (l n).prev = a := hbefore.2
    have hnys : n ∉ ys := (List.nodup_cons.mp htail).1
    have hbn : b ≠ n := fun heq => hb (by simp [heq])
    cases ys with
    | nil =>
      have hq : (l n).next = b := hafter.1
      refine ⟨?_, ?_⟩
      · rw [Links.next_del, if_neg han, if_pos hpa.symm, hq]
      · rw [Links.prev_del, if_neg hbn, if_pos hq.symm, hpa]
    | cons y ys =>
      have hq : (l n).next = y := hafter.1.1
      have hyn : y ≠ n := fun heq => hnys (by simp [heq])
      refine ⟨⟨?_, ?_⟩, hafter.2.congr (fun x hx => ?_) fun x hx => ?_⟩
      · rw [Links.next_del, if_neg han, if_pos hpa.symm, hq]
      · rw [Links.prev_del, if_neg hyn, if_pos hq.symm, hpa]
      · grind [Links.next_del]
      · grind [List.mem_singleton, Links.prev_del]
  | cons x xs ih =>
    have hxn : x ≠ n := fun heq => (List.nodup_cons.mp htail).1 (by simp [heq])
    -- the neighbours of the node are further on
    have hprev : (l n).prev ≠ a := fun heq => by
      have := hbefore.2.prev_mem
      rw [heq] at this
      exact ha (List.mem_append_left _ this)
    have hnext : (l n).next ≠ x := fun heq => by
      have := hafter.next_mem
      rw [heq] at this
      rcases List.mem_append.mp this with hx | hx
      · exact (List.nodup_cons.mp htail).1 (by simp [hx])
      · exact hb (by simp [List.mem_singleton.mp hx])
    refine ⟨⟨?_, ?_⟩, ih hp.2 htail (fun hmem' => hb (List.mem_cons_of_mem _ hmem'))
      (fun y hy => by simp [hy]) (List.nodup_cons.mp htail).1 (List.nodup_cons.mp htail).2 hxn
      hbefore.2⟩
    · rw [Links.next_del, if_neg han, if_neg hprev.symm]
      exact hbefore.1.1
    · rw [Links.prev_del, if_neg hxn, if_neg hnext.symm]
      exact hbefore.1.2

namespace LinkRing

theorem init (l : Links α) (h : α) : LinkRing (l.init h) h [] :=
  ⟨⟨by simp [Links.next_init], by simp [Links.prev_init]⟩, by simp⟩

theorem init_of_not_mem (hr : LinkRing l h ns) (hn : n ∉ h :: ns) : LinkRing (l.init n) h ns := by
  refine hr.congr fun x hx => ?_
  have hne : x ≠ n := fun heq => hn (heq ▸ hx)
  exact Function.update_of_ne hne _ l

/-- A new node comes first. -/
theorem add (hr : LinkRing l h ns) (hn : n ∉ h :: ns) : LinkRing (l.add n h) h (n :: ns) := by
  have hne : n ≠ h := fun heq => hn (heq ▸ List.mem_cons_self)
  obtain ⟨hhead, hns⟩ := List.nodup_cons.mp hr.nodup
  refine ⟨?_, ?_⟩
  · have hfirst : (l h).next ≠ n := fun heq =>
      hn (heq ▸ (hr.mem_neighbours List.mem_cons_self).2)
    refine ⟨⟨by rw [Links.next_add, if_pos rfl], ?_⟩, ?_⟩
    · rw [Links.prev_add hne, if_neg hfirst.symm, if_pos rfl]
    · cases ns with
      | nil =>
        have hnext : (l h).next = h := hr.chain.1
        refine ⟨?_, ?_⟩
        · rw [Links.next_add, if_neg hne, if_pos rfl, hnext]
        · rw [Links.prev_add hne, hnext, if_pos rfl]
      | cons y ys =>
        have hnext : (l h).next = y := hr.chain.1.1
        refine ⟨⟨?_, ?_⟩, hr.chain.2.congr (fun x hx => ?_) fun x hx => ?_⟩
        · rw [Links.next_add, if_neg hne, if_pos rfl, hnext]
        · rw [Links.prev_add hne, hnext, if_pos rfl]
        · grind [Links.next_add]
        · grind [Links.prev_add]
  · grind

/-- A ring does not see an insertion into another one. -/
theorem add_of_disjoint {h' : α} {ns' : List α} (hr : LinkRing l h ns) (hr' : LinkRing l h' ns')
    (hdisj : ∀ x ∈ h :: ns, x ∉ h' :: ns') (hn : n ∉ h :: ns) (hn' : n ≠ h') :
    LinkRing (l.add n h') h ns := by
  have hnext := (hr'.mem_neighbours (List.mem_cons_self)).2
  refine ⟨hr.chain.congr (fun x hx => ?_) fun x hx => ?_, hr.nodup⟩
  · grind [Links.next_add]
  · grind [Links.prev_add]

/-- A node leaves its ring. -/
theorem del (hr : LinkRing l h (xs ++ n :: ys)) : LinkRing (l.del n) h (xs ++ ys) := by
  have hnodup := List.nodup_cons.mp hr.nodup
  refine ⟨hr.chain.del hr.nodup hnodup.1, hr.nodup.sublist (List.Sublist.cons_cons _ ?_)⟩
  exact List.Sublist.append_left (List.sublist_cons_self n ys) xs

/-- A ring does not see a removal from another one. -/
theorem del_of_disjoint {h' : α} {ns' : List α} (hr : LinkRing l h ns) (hr' : LinkRing l h' ns')
    (hdisj : ∀ x ∈ h :: ns, x ∉ h' :: ns') (hn : n ∈ h' :: ns') : LinkRing (l.del n) h ns := by
  obtain ⟨hprev, hnext⟩ := hr'.mem_neighbours hn
  refine ⟨hr.chain.congr (fun x hx => ?_) fun x hx => ?_, hr.nodup⟩
  · grind [Links.next_del]
  · grind [Links.prev_del]

end LinkRing

/-! ## Heads -/

/-- Whoever has the head before it is the node after the head. In a ring this says that the links
agree at the head; unlike a ring it survives any use of the operations. -/
def Headed (l : Links α) (h : α) : Prop := ∀ x, (l x).prev = h → (l h).next = x

namespace Headed

/-- Insertion of a node that is not a head itself, at this head or another one. -/
theorem add {h' : α} (hl : Headed l h) (hn : n ≠ h) (hn' : n ≠ h') : Headed (l.add n h') h := by
  intro x hx
  rw [Links.prev_add hn'] at hx
  rw [Links.next_add]
  split_ifs at hx with h₁ h₂
  · exact absurd hx hn
  · subst h₂ hx
    rw [if_pos rfl]
  · have hnext := hl x hx
    by_cases hh : h = h'
    · exact absurd (hh ▸ hnext.symm) h₁
    · rw [if_neg hh, if_neg hn.symm, hnext]

/-- Removal of any node, even of a head. -/
theorem del (hl : Headed l h) : Headed (l.del n) h := by
  intro x hx
  rw [Links.prev_del] at hx
  rw [Links.next_del]
  split_ifs at hx with h₁ h₂
  · subst h₁ hx
    rw [if_pos rfl]
  · -- the successor of the node now stands behind its predecessor
    by_cases hh : h = n
    · subst hh
      have hself := hl h hx
      exact absurd (h₂.trans hself) h₁
    · rw [if_neg hh, if_pos hx.symm, h₂]
  · have hnext := hl x hx
    by_cases hh : h = n
    · subst hh
      exact absurd hnext.symm h₂
    · split_ifs with hp
      · exact absurd ((hl n hp.symm).symm.trans hnext) fun heq => h₁ heq.symm
      · exact hnext

theorem init (hl : Headed l h) (hn : n ≠ h) : Headed (l.init n) h := by
  intro x hx
  rw [Links.prev_init] at hx
  rw [Links.next_init, if_neg hn.symm]
  split_ifs at hx with h₁
  · exact absurd hx hn
  · exact hl x hx

/-- Removal of a node never fills an empty list. -/
theorem empty_del (hl : Headed l h) (he : l.Empty h) : (l.del n).Empty h := by
  unfold Links.Empty at he ⊢
  rw [Links.next_del]
  split_ifs with h₁ h₂
  · exact h₁.symm
  · have hn : h = n := he.symm.trans (hl n h₂.symm)
    exact absurd hn h₁
  · exact he

end Headed

theorem Links.empty_add_of_ne {h' : α} (he : l.Empty h) (hn : n ≠ h) (hh : h ≠ h') :
    (l.add n h').Empty h := by
  unfold Links.Empty at he ⊢
  rw [Links.next_add, if_neg hh, if_neg hn.symm, he]

end Ukernel.Lib
