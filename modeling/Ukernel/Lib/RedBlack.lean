import Mathlib.Data.List.Basic
import Mathlib.Data.List.Nodup

/-!
# Red-black trees and their contexts

Coloured binary trees, the red-black balance condition, and trees with a hole. A context is the
list of frames from a hole up to the root, so that a loop which climbs a tree shortens it by one
frame a step.

## Main definitions

* `Tree`, `Tree.toList`: coloured trees and their labels in order
* `Balanced t c n`: no red node has a red child, and every path to a leaf has `n` black nodes
* `Frame`, `Ctx`, `plug`: trees with a hole
* `HoleBalanced k c n`: filling `k` with a balanced tree of colour `c` and height `n` gives a
  balanced tree with a black root

## Main results

* `balanced_plug_iff`: balance splits between a hole and its filling
* `exists_plug_of_mem`, `exists_plug_leftmost`: every label, and the first one, is at some hole
-/

namespace Ukernel.Lib

/-- The colour of a node. -/
inductive Color where
  | red
  | black
deriving DecidableEq, Repr

/-- Coloured binary trees. -/
inductive Tree (α : Type*) where
  | nil
  | node (c : Color) (l : Tree α) (x : α) (r : Tree α)

/-- On which side of its parent a hole is. -/
inductive Side where
  | left
  | right
deriving DecidableEq, Repr

/-- A parent with a hole on one side: its colour, its label and the subtree on the other side. -/
structure Frame (α : Type*) where
  side : Side
  color : Color
  label : α
  sibling : Tree α

/-- The frames from a hole up to the root. -/
abbrev Ctx (α : Type*) := List (Frame α)

variable {α : Type*}

namespace Tree

/-- The labels in order. -/
def toList : Tree α → List α
  | nil => []
  | node _ l x r => l.toList ++ x :: r.toList

/-- The colour of the root; leaves are black. -/
def color : Tree α → Color
  | nil => .black
  | node c _ _ _ => c

/-- The tree with its root painted. -/
def paint (c : Color) : Tree α → Tree α
  | nil => nil
  | node _ l x r => node c l x r

@[simp] theorem toList_nil : (nil : Tree α).toList = [] := rfl

@[simp] theorem toList_node (c : Color) (l : Tree α) (x : α) (r : Tree α) :
    (node c l x r).toList = l.toList ++ x :: r.toList := rfl

@[simp] theorem toList_paint (c : Color) (t : Tree α) : (t.paint c).toList = t.toList := by
  cases t <;> rfl

end Tree

/-- Put a tree into the hole of a frame. -/
def Frame.fill : Frame α → Tree α → Tree α
  | ⟨.left, c, x, s⟩, t => .node c t x s
  | ⟨.right, c, x, s⟩, t => .node c s x t

/-- Put a tree into the hole of a context. -/
def plug : Ctx α → Tree α → Tree α
  | [], t => t
  | f :: k, t => plug k (f.fill t)

/-- The labels before the hole. -/
def Ctx.before : Ctx α → List α
  | [] => []
  | ⟨.left, _, _, _⟩ :: k => Ctx.before k
  | ⟨.right, _, x, s⟩ :: k => Ctx.before k ++ (s.toList ++ [x])

/-- The labels after the hole. -/
def Ctx.after : Ctx α → List α
  | [] => []
  | ⟨.left, _, x, s⟩ :: k => (x :: s.toList) ++ Ctx.after k
  | ⟨.right, _, _, _⟩ :: k => Ctx.after k

theorem toList_plug (k : Ctx α) (t : Tree α) :
    (plug k t).toList = k.before ++ (t.toList ++ k.after) := by
  induction k generalizing t with
  | nil => simp [plug, Ctx.before, Ctx.after]
  | cons f k ih =>
    obtain ⟨side, c, x, s⟩ := f
    cases side <;> simp [plug, Frame.fill, ih, Ctx.before, Ctx.after]

theorem plug_append (j k : Ctx α) (t : Tree α) : plug (j ++ k) t = plug k (plug j t) := by
  induction j generalizing t with
  | nil => rfl
  | cons f j ih => exact ih _

/-! ## Distinct labels -/

/-- The two sides of a context have no label in common and none twice. -/
def Ctx.Distinct (k : Ctx α) : Prop := (Ctx.before k ++ Ctx.after k).Nodup

theorem mem_fill {d : Side} {c : Color} {x z : α} {t u : Tree α} :
    z ∈ (Frame.fill ⟨d, c, x, u⟩ t).toList ↔ z = x ∨ z ∈ t.toList ∨ z ∈ u.toList := by
  cases d <;> simp only [Frame.fill, Tree.toList_node, List.mem_append, List.mem_cons] <;> tauto

theorem nodup_fill_iff {d : Side} {c : Color} {x : α} {t u : Tree α} :
    (Frame.fill ⟨d, c, x, u⟩ t).toList.Nodup ↔
      t.toList.Nodup ∧ u.toList.Nodup ∧ x ∉ t.toList ∧ x ∉ u.toList ∧
        ∀ z ∈ t.toList, z ∉ u.toList := by
  cases d <;>
    simp only [Frame.fill, Tree.toList_node, List.nodup_append, List.nodup_cons, List.mem_cons]
  · grind
  · grind

theorem nodup_plug_iff {k : Ctx α} {t : Tree α} :
    (plug k t).toList.Nodup ↔
      Ctx.Distinct k ∧ t.toList.Nodup ∧
        ∀ z ∈ t.toList, z ∉ Ctx.before k ∧ z ∉ Ctx.after k := by
  rw [toList_plug, Ctx.Distinct]
  simp only [List.nodup_append, List.mem_append]
  constructor
  · grind
  · grind

/-- The labels of a context whose nearest frame is taken off. -/
theorem Ctx.distinct_cons {f : Frame α} {k : Ctx α} :
    Ctx.Distinct (f :: k) ↔ Ctx.Distinct k ∧ f.sibling.toList.Nodup ∧ f.label ∉ f.sibling.toList ∧
      (f.label ∉ Ctx.before k ∧ f.label ∉ Ctx.after k) ∧
      ∀ z ∈ f.sibling.toList, z ∉ Ctx.before k ∧ z ∉ Ctx.after k := by
  obtain ⟨d, c, x, u⟩ := f
  have h : Ctx.Distinct (⟨d, c, x, u⟩ :: k) ↔ (plug (⟨d, c, x, u⟩ :: k) Tree.nil).toList.Nodup := by
    rw [nodup_plug_iff]
    simp
  rw [h, plug, nodup_plug_iff, nodup_fill_iff]
  simp only [mem_fill, Tree.toList_nil, List.not_mem_nil, false_or, List.nodup_nil, true_and]
  constructor
  · grind
  · grind

/-! ## Balance -/

/-- The red-black condition, with the colour of the root and the black height. -/
inductive Balanced : Tree α → Color → Nat → Prop where
  | nil : Balanced .nil .black 0
  | red {l r : Tree α} {x : α} {n : Nat} (hl : Balanced l .black n) (hr : Balanced r .black n) :
      Balanced (.node .red l x r) .red n
  | black {l r : Tree α} {x : α} {n : Nat} {cl cr : Color} (hl : Balanced l cl n)
      (hr : Balanced r cr n) : Balanced (.node .black l x r) .black (n + 1)

namespace Balanced

variable {t l r : Tree α} {x : α} {c : Color} {n : Nat}

theorem color_eq (h : Balanced t c n) : t.color = c := by cases h <;> rfl

theorem of_red (h : Balanced (.node .red l x r) c n) :
    c = .red ∧ Balanced l .black n ∧ Balanced r .black n := by
  cases h with
  | red hl hr => exact ⟨rfl, hl, hr⟩

theorem of_black (h : Balanced (.node .black l x r) c n) :
    ∃ m cl cr, c = .black ∧ n = m + 1 ∧ Balanced l cl m ∧ Balanced r cr m := by
  cases h with
  | black hl hr => exact ⟨_, _, _, rfl, rfl, hl, hr⟩

/-- A balanced red tree, painted black. -/
theorem paint_black (h : Balanced t .red n) : Balanced (t.paint .black) .black (n + 1) := by
  cases h with
  | red hl hr => exact .black hl hr

/-- A balanced tree of positive height with a black root is a node. -/
theorem exists_black (h : Balanced t .black (n + 1)) :
    ∃ l x r cl cr, t = .node .black l x r ∧ Balanced l cl n ∧ Balanced r cr n := by
  cases h with
  | black hl hr => exact ⟨_, _, _, _, _, rfl, hl, hr⟩

theorem exists_red (h : Balanced t .red n) :
    ∃ l x r, t = .node .red l x r ∧ Balanced l .black n ∧ Balanced r .black n := by
  cases h with
  | red hl hr => exact ⟨_, _, _, rfl, hl, hr⟩

end Balanced

/-- The balance of a context with a hole for a tree of colour `c` and black height `n`; the root
of the whole tree is black. -/
def HoleBalanced : Ctx α → Color → Nat → Prop
  | [], c, _ => c = .black
  | ⟨_, .black, _, s⟩ :: k, _, n => (∃ c, Balanced s c n) ∧ HoleBalanced k .black (n + 1)
  | ⟨_, .red, _, s⟩ :: k, c, n => c = .black ∧ Balanced s .black n ∧ HoleBalanced k .red n

namespace HoleBalanced

variable {k : Ctx α} {t s : Tree α} {x : α} {c : Color} {n : Nat} {side : Side}

/-- A hole always takes a black tree. -/
theorem black (h : HoleBalanced k c n) : HoleBalanced k .black n := by
  cases k with
  | nil => rfl
  | cons f k =>
    obtain ⟨side, cf, x, s⟩ := f
    cases cf with
    | red => exact ⟨rfl, h.2⟩
    | black => exact h

/-- Above a red node there is a black one. -/
theorem of_red (h : HoleBalanced k .red n) :
    ∃ side x s k', k = ⟨side, .black, x, s⟩ :: k' ∧ (∃ c, Balanced s c n) ∧
      HoleBalanced k' .black (n + 1) := by
  cases k with
  | nil => exact absurd h (by simp [HoleBalanced])
  | cons f k =>
    obtain ⟨side, cf, x, s⟩ := f
    cases cf with
    | red => exact absurd h.1 (by simp)
    | black => exact ⟨side, x, s, k, rfl, h⟩

end HoleBalanced

/-- Balance splits between a hole and its filling. -/
theorem balanced_plug_iff {k : Ctx α} {t : Tree α} :
    (∃ m, Balanced (plug k t) .black m) ↔ ∃ c n, Balanced t c n ∧ HoleBalanced k c n := by
  induction k generalizing t with
  | nil =>
    constructor
    · rintro ⟨m, h⟩
      exact ⟨_, m, h, rfl⟩
    · rintro ⟨c, n, h, hc⟩
      exact ⟨n, hc ▸ h⟩
  | cons f k ih =>
    obtain ⟨side, cf, x, s⟩ := f
    simp only [plug, ih]
    cases cf with
    | red =>
      constructor
      · rintro ⟨c, n, h, hk⟩
        cases side with
        | left =>
          obtain ⟨rfl, hl, hr⟩ := h.of_red
          exact ⟨_, n, hl, rfl, hr, hk⟩
        | right =>
          obtain ⟨rfl, hl, hr⟩ := h.of_red
          exact ⟨_, n, hr, rfl, hl, hk⟩
      · rintro ⟨c, n, h, rfl, hs, hk⟩
        cases side with
        | left => exact ⟨_, n, .red h hs, hk⟩
        | right => exact ⟨_, n, .red hs h, hk⟩
    | black =>
      constructor
      · rintro ⟨c, n, h, hk⟩
        cases side with
        | left =>
          obtain ⟨m, cl, cr, rfl, rfl, hl, hr⟩ := h.of_black
          exact ⟨_, m, hl, ⟨_, hr⟩, hk⟩
        | right =>
          obtain ⟨m, cl, cr, rfl, rfl, hl, hr⟩ := h.of_black
          exact ⟨_, m, hr, ⟨_, hl⟩, hk⟩
      · rintro ⟨c, n, h, ⟨cs, hs⟩, hk⟩
        cases side with
        | left => exact ⟨_, n + 1, .black h hs, hk⟩
        | right => exact ⟨_, n + 1, .black hs h, hk⟩

theorem HoleBalanced.plug {k : Ctx α} {t : Tree α} {c : Color} {n : Nat} (hk : HoleBalanced k c n)
    (ht : Balanced t c n) : ∃ m, Balanced (Lib.plug k t) .black m :=
  balanced_plug_iff.mpr ⟨c, n, ht, hk⟩

/-- The label of a frame does not matter for balance. -/
theorem holeBalanced_relabel {j k : Ctx α} {side : Side} {cf : Color} {x y : α} {s : Tree α}
    {c : Color} {n : Nat} (h : HoleBalanced (j ++ ⟨side, cf, x, s⟩ :: k) c n) :
    HoleBalanced (j ++ ⟨side, cf, y, s⟩ :: k) c n := by
  induction j generalizing c n with
  | nil => cases cf <;> exact h
  | cons f j ih =>
    obtain ⟨_, cj, _, _⟩ := f
    cases cj with
    | red => exact ⟨h.1, h.2.1, ih h.2.2⟩
    | black => exact ⟨h.1, ih h.2⟩

/-! ## Finding holes -/

theorem exists_plug_of_mem {t : Tree α} {x : α} (h : x ∈ t.toList) :
    ∃ k c l r, t = plug k (.node c l x r) := by
  suffices ∀ k : Ctx α, ∃ k' c l r, plug k t = plug k' (.node c l x r) from this []
  induction t with
  | nil => exact absurd h List.not_mem_nil
  | node c l y r ihl ihr =>
    intro k
    rcases List.mem_append.mp h with h | h
    · exact ihl h (⟨.left, c, y, r⟩ :: k)
    · rcases List.mem_cons.mp h with rfl | h
      · exact ⟨k, c, l, r, rfl⟩
      · exact ihr h (⟨.right, c, y, l⟩ :: k)

end Ukernel.Lib
