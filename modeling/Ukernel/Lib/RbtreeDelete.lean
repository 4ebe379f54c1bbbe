import Ukernel.Lib.RbtreeInsert

/-!
# Deletion from a pointer red-black tree

When a black node is unlinked, the subtree in its place is short of one black node. Each pass of
`delete_fixup` makes up for it or moves the shortage one node up. The subtree may be the sentinel,
whose parent field then stands for the place of the hole.

## Main definitions

* `RbTree.Short`, `RbTree.FocusParent`: what the loop knows about the node it is at
* `RbTree.Fixed`: the loop has ended with a red-black tree

## Main results

* `RbTree.deleteFixupLoop_fixed`: the loop makes up for the missing black node
* `RbTree.rbtreeDelete_spec`: deletion returns, keeps balance, and takes one label out
-/

namespace Ukernel.Lib

namespace RbTree

variable {s s' : RbTree} {k : Ctx Nat} {t u : Tree Nat} {d : Side} {x : Nat} {c : Color}

section Delete

variable {p b n : Nat} {a e : Tree Nat}

/-- The tree lacks one black node on every path, or is red and lacks none once painted black. -/
def Short (t : Tree Nat) (n : Nat) : Prop :=
  (t.color = .red ∧ Balanced (t.paint .black) .black (n + 1)) ∨ Balanced t .black n

/-- The parent pointer of the focus, also when that is the sentinel. -/
def FocusParent (s : RbTree) (k : Ctx Nat) (t : Tree Nat) : Prop :=
  (s.mem (s.ptr t)).parent = s.parentOf k

theorem FocusParent.of_sameNil (h : s.FocusParent k t) (hs : SameNil s s') {k' : Ctx Nat}
    (hlaid : s'.Laid k' t) (hk : s.parentOf k' = s.parentOf k) : s'.FocusParent k' t := by
  by_cases ht : t = .nil
  · subst ht
    change (s'.mem s'.nil).parent = s'.parentOf k'
    rw [hs.nil, hs.mem, parentOf_eq_of_nil hs.nil, hk]
    exact h
  · exact hlaid.parent ht

/-- The last write of `delete_fixup`. -/
theorem Laid.paint (h : s.Laid k t) (hnil : (s.mem s.nil).col = .black) :
    (s.setCol (s.ptr t) .black).Laid k (t.paint .black) ∧
      ((s.setCol (s.ptr t) .black).mem s.nil).col = .black := by
  cases t with
  | nil =>
    refine ⟨⟨?_, trivial, h.nodup⟩, ?_⟩
    · refine h.ctx.congr (fun z hz => mem_modify_of_ne _ ?_) rfl rfl
      exact h.ctx.ne_nil hz
    · change ((s.setCol s.nil .black).mem s.nil).col = .black
      rw [RbTree.setCol, mem_modify_self, RbNode.col_withCol]
  | node c l x r =>
    obtain ⟨h₁, hs₁⟩ := Laid.setCol (d := .left) h .black
    exact ⟨h₁, (congrArg RbNode.col hs₁.mem).trans hnil⟩

/-- A red brother gives way to a black one. -/
theorem deleteRedBrother_red (h : s.Laid (⟨d, .black, p, Frame.fill ⟨d, .red, b, e⟩ a⟩ :: k) t)
    (hpar : s.FocusParent (⟨d, .black, p, Frame.fill ⟨d, .red, b, e⟩ a⟩ :: k) t)
    (hnil : (s.mem s.nil).col = .black) :
    (s.deleteRedBrother d (s.ptr t)).Laid (⟨d, .red, p, a⟩ :: ⟨d, .black, b, e⟩ :: k) t ∧
      SameNil s (s.deleteRedBrother d (s.ptr t)) := by
  have hp : (s.mem (s.ptr t)).parent = p := hpar
  have hb : (s.mem p).child d.flip = b := by
    rw [h.above.2.2.2.2, ptr_fill]
  have hbp : (s.mem b).parent = p := by
    have := h.across.parent (by cases d <;> simp [Frame.fill])
    rwa [ptr_fill] at this
  have hcol : (s.mem b).col = .red := by
    have := h.across.col_ptr hnil
    rw [ptr_fill] at this
    rw [this]
    cases d <;> rfl
  unfold deleteRedBrother
  simp only [hp, hb, hcol, if_true, parent_setCol, hbp]
  obtain ⟨h₁, hs₁⟩ := h.across.setCol .black
  obtain ⟨h₂, hs₂⟩ := h₁.across.up.setCol .red
  rw [Side.flip_flip] at h₂
  obtain ⟨h₃, hs₃⟩ := h₂.rotate
  exact ⟨h₃.down.down, (hs₁.trans hs₂).trans hs₃⟩

theorem deleteRedBrother_black (h : s.Laid (⟨d, c, p, u⟩ :: k) t)
    (hpar : s.FocusParent (⟨d, c, p, u⟩ :: k) t) (hnil : (s.mem s.nil).col = .black)
    (hu : u.color = .black) : s.deleteRedBrother d (s.ptr t) = s := by
  have hp : (s.mem (s.ptr t)).parent = p := hpar
  have hb : (s.mem p).child d.flip = s.ptr u := h.above.2.2.2.2
  have hcol : (s.mem (s.ptr u)).col = .black := by rw [h.across.col_ptr hnil, hu]
  unfold deleteRedBrother
  simp only [hp, hb, hcol, reduceCtorEq, if_false]

section

variable (h : s.Laid (⟨d, c, p, Frame.fill ⟨d, .black, b, e⟩ a⟩ :: k) t)

include h

/-- The last rotation of `delete_fixup`, with the outer nephew red. -/
theorem deleteRotate_outer (he : Balanced e .red n) :
    let s₁ := s.setCol b c
    let s₂ := s₁.setCol p .black
    let s₃ := s₂.setCol (s.ptr e) .black
    (s₃.rotate d p).Laid (⟨d, .black, p, a⟩ :: ⟨d, c, b, e.paint .black⟩ :: k) t ∧
      SameNil s (s₃.rotate d p) := by
  intro s₁ s₂ s₃
  obtain ⟨l, y, r, rfl, -, -⟩ := he.exists_red
  obtain ⟨h₁, hs₁⟩ := h.across.setCol c
  obtain ⟨h₂, hs₂⟩ := h₁.across.up.setCol .black
  rw [Side.flip_flip] at h₂
  obtain ⟨h₃, hs₃⟩ := h₂.down.across.down.across.setCol (d := .left) .black
  have h₄ := h₃.across.up.across.up
  rw [Side.flip_flip] at h₄
  obtain ⟨h₅, hs₅⟩ := h₄.rotate
  exact ⟨h₅.down.down, ((hs₁.trans hs₂).trans hs₃).trans hs₅⟩

/-- The end of `deleteRotate`, as the source reads its pointers. -/
theorem deleteRotate_end (hpar : s.FocusParent (⟨d, c, p, Frame.fill ⟨d, .black, b, e⟩ a⟩ :: k) t) :
    let parent := (s.mem (s.ptr t)).parent
    let brother := (s.mem parent).child d.flip
    let s₁ := s.setCol brother (s.mem parent).col
    let s₂ := s₁.setCol parent .black
    let s₃ := s₂.setCol ((s₂.mem brother).child d.flip) .black
    s₃.rotate d parent = (((s.setCol b c).setCol p .black).setCol (s.ptr e) .black).rotate d p := by
  have hp : (s.mem (s.ptr t)).parent = p := hpar
  have hb : (s.mem p).child d.flip = b := by rw [h.above.2.2.2.2, ptr_fill]
  have hpc : (s.mem p).col = c := h.above.2.1
  have hbe : (s.mem b).child d.flip = s.ptr e := h.across.down.above.2.2.2.2
  simp only [hp, hb, hpc, child_setCol, hbe]

/-- A pass of `delete_fixup` with a red nephew. -/
theorem deleteRotate_laid {ca ce : Color}
    (hpar : s.FocusParent (⟨d, c, p, Frame.fill ⟨d, .black, b, e⟩ a⟩ :: k) t)
    (hnil : (s.mem s.nil).col = .black) (ha : Balanced a ca n) (he : Balanced e ce n)
    (hred : ¬ (ca = .black ∧ ce = .black)) :
    ∃ a' b' e' ca',
      (s.deleteRotate d (s.ptr t)).Laid (⟨d, .black, p, a'⟩ :: ⟨d, c, b', e'⟩ :: k) t ∧
      SameNil s (s.deleteRotate d (s.ptr t)) ∧ Balanced a' ca' n ∧ Balanced e' .black (n + 1) ∧
      (plug (⟨d, .black, p, a'⟩ :: ⟨d, c, b', e'⟩ :: k) t).toList =
        (plug (⟨d, c, p, Frame.fill ⟨d, .black, b, e⟩ a⟩ :: k) t).toList := by
  have hp : (s.mem (s.ptr t)).parent = p := hpar
  have hb : (s.mem p).child d.flip = b := by rw [h.above.2.2.2.2, ptr_fill]
  have hbro := h.across.down
  have hbe : (s.mem b).child d.flip = s.ptr e := hbro.above.2.2.2.2
  have hba : (s.mem b).child d = s.ptr a := hbro.above.2.2.2.1
  have hecol : (s.mem (s.ptr e)).col = ce := by rw [hbro.across.col_ptr hnil, he.color_eq]
  unfold deleteRotate
  cases ce with
  | red =>
    simp only [hp, hb, hbe, hecol, reduceCtorEq, if_false]
    have hend := deleteRotate_end h hpar
    simp only [hp, hb] at hend
    rw [hend]
    obtain ⟨hlaid, hsame⟩ := deleteRotate_outer h he
    refine ⟨_, _, _, _, hlaid, hsame, ha, he.paint_black, ?_⟩
    rw [plug, plug, plug, toList_plug, toList_plug]
    cases d <;> simp [Frame.fill]
  | black =>
    -- the inner nephew is red and moves up first
    obtain rfl : ca = .red := by
      cases ca with
      | red => rfl
      | black => exact absurd ⟨rfl, rfl⟩ hred
    obtain ⟨y, w, v, rfl, hw, hv⟩ := ha.exists_fill_red d.flip
    rw [ptr_fill] at hba
    simp only [hp, hb, hbe, hecol, if_true, hba]
    obtain ⟨h₁, hs₁⟩ := hbro.setCol .black
    obtain ⟨h₂, hs₂⟩ := h₁.up.setCol .red
    have h₂' : ((s.setCol y .black).setCol b .red).Laid
        (⟨d.flip, c, p, t⟩ :: k)
        (Frame.fill ⟨d.flip, .red, b, Frame.fill ⟨d.flip, .black, y, v⟩ w⟩ e) := by
      rw [Frame.fill_flip]
      exact h₂
    obtain ⟨h₃, hs₃⟩ := h₂'.rotate
    rw [Frame.fill_flip d .black y] at h₃
    have hsame := (hs₁.trans hs₂).trans hs₃
    have h₄ := h₃.across
    rw [Side.flip_flip] at h₄
    have hpar₄ := hpar.of_sameNil hsame h₄ rfl
    have hend := deleteRotate_end h₄ hpar₄
    rw [ptr_eq_of_nil hsame.nil t] at hend
    rw [hend]
    obtain ⟨hlaid, hsame'⟩ := deleteRotate_outer h₄ (he.fill_red hw)
    refine ⟨_, _, _, _, hlaid, hsame.trans hsame', hv, (he.fill_red hw).paint_black, ?_⟩
    rw [plug, plug, plug, toList_plug, toList_plug]
    cases d <;> simp [Frame.fill, Side.flip]

end

/-- The loop of `delete_fixup` has ended, and its last write gives a red-black tree with the
labels `ls`. -/
def Fixed (nil : Nat) (ls : List Nat) (o : Option (RbTree × Nat)) : Prop :=
  ∃ r t, o = some r ∧ (r.1.setCol r.2 .black).Represents t ∧ r.1.nil = nil ∧
    (∃ m, Balanced t .black m) ∧ t.toList = ls

theorem Laid.whole (h : s.Laid k t) : s.Laid [] (plug k t) :=
  laid_append.mp (by rwa [List.append_nil])

/-- Painting the focus black completes the tree. -/
theorem Laid.fixed {r : RbTree} (h : r.Laid k t) (hnil : (r.mem r.nil).col = .black)
    (hbal : ∃ m, Balanced (plug k (t.paint .black)) .black m) :
    Fixed r.nil (plug k t).toList (some (r, r.ptr t)) := by
  obtain ⟨h₁, hnil₁⟩ := h.paint hnil
  refine ⟨_, plug k (t.paint .black), rfl, ⟨h₁.whole, hnil₁⟩, rfl, hbal, ?_⟩
  rw [toList_plug, toList_plug, Tree.toList_paint]

theorem CtxAt.root_mem {f : Frame Nat} {q : Nat} (h : s.CtxAt (f :: k) q) :
    s.root ∈ Ctx.before (f :: k) ∨ s.root ∈ Ctx.after (f :: k) := by
  induction k generalizing f q with
  | nil =>
    have hroot : s.root = f.label := h.2.2.2.2.2.2
    obtain ⟨d, c, x, u⟩ := f
    cases d <;> simp [Ctx.before, Ctx.after, hroot]
  | cons g k ih =>
    obtain ⟨d, c, x, u⟩ := f
    rcases ih h.2.2.2.2.2.2 with hr | hr
    · cases d <;> simp only [Ctx.before, Ctx.after, List.mem_append] <;> tauto
    · cases d <;> simp only [Ctx.before, Ctx.after, List.mem_append] <;> tauto

theorem Laid.ptr_ne_root {f : Frame Nat} (h : s.Laid (f :: k) t) : s.ptr t ≠ s.root := by
  have hroot := h.ctx.root_mem
  rcases s.ptr_mem t with ⟨-, ht⟩ | ht
  · rw [ht]
    exact Ne.symm (h.ctx.ne_nil hroot)
  · grind [nodup_plug_iff, h.nodup]

/-- The loop ends at the root and at a red node. -/
theorem deleteFixupLoop_exit (fuel : Nat) (h : s.Laid k t) (hnil : (s.mem s.nil).col = .black)
    (hexit : k = [] ∨ t.color = .red) :
    deleteFixupLoop (fuel + 1) s (s.ptr t) = some (s, s.ptr t) := by
  unfold deleteFixupLoop
  rw [if_neg]
  rintro ⟨hroot, hcol⟩
  rcases hexit with rfl | hred
  · exact hroot h.ctx.symm
  · rw [h.col_ptr hnil, hred] at hcol
    exact absurd hcol (by decide)

/-- A short red tree is complete once painted. -/
theorem fixed_of_red {fuel : Nat} (h : s.Laid k t) (hnil : (s.mem s.nil).col = .black)
    (hred : t.color = .red) (hbal : Balanced (t.paint .black) .black (n + 1))
    (hk : HoleBalanced k .black (n + 1)) (hfuel : 0 < fuel) :
    Fixed s.nil (plug k t).toList (deleteFixupLoop fuel s (s.ptr t)) := by
  obtain ⟨fuel, rfl⟩ := Nat.exists_eq_succ_of_ne_zero (Nat.ne_of_gt hfuel)
  rw [deleteFixupLoop_exit fuel h hnil (Or.inr hred)]
  exact h.fixed hnil (hk.plug hbal)

/-- The rest of a pass, once the brother is black. -/
theorem deletePass_fixed {fuel : Nat} (h : s.Laid (⟨d, c, p, u⟩ :: k) t)
    (hpar : s.FocusParent (⟨d, c, p, u⟩ :: k) t) (hnil : (s.mem s.nil).col = .black)
    (ht : Balanced t .black n) (hu : Balanced u .black (n + 1))
    (hkr : c = .red → HoleBalanced k .red (n + 1))
    (hkb : c = .black → HoleBalanced k .black (n + 2)) (hfuel : 0 < fuel)
    (ih : c = .black → ∀ (s₂ : RbTree) (t₂ : Tree Nat), s₂.Laid k t₂ → t₂ ≠ .nil →
      (s₂.mem s₂.nil).col = .black → Balanced t₂ .black (n + 1) →
      Fixed s₂.nil (plug k t₂).toList (deleteFixupLoop fuel s₂ (s₂.ptr t₂))) :
    let brother := (s.mem (s.mem (s.ptr t)).parent).child d.flip
    Fixed s.nil (plug (⟨d, c, p, u⟩ :: k) t).toList
      (if (s.mem (s.mem brother).left).col = .black ∧
        (s.mem (s.mem brother).right).col = .black then
        let s' := if brother ≠ s.nil then s.setCol brother .red else s
        deleteFixupLoop fuel s' (s'.mem (s.ptr t)).parent
      else some (s.deleteRotate d (s.ptr t), s.ptr t)) := by
  intro brother
  obtain ⟨b, a, e, ca, ce, rfl, ha, he⟩ := hu.exists_fill_black d
  have hp : (s.mem (s.ptr t)).parent = p := hpar
  have hb : (s.mem p).child d.flip = b := by rw [h.above.2.2.2.2, ptr_fill]
  have hbrother : brother = b := by simp only [brother, hp, hb]
  rw [hbrother]
  have hbro := h.across.down
  have hbe : (s.mem b).child d.flip = s.ptr e := hbro.above.2.2.2.2
  have hba : (s.mem b).child d = s.ptr a := hbro.above.2.2.2.1
  have hacol : (s.mem (s.ptr a)).col = ca := by rw [hbro.col_ptr hnil, ha.color_eq]
  have hecol : (s.mem (s.ptr e)).col = ce := by rw [hbro.across.col_ptr hnil, he.color_eq]
  have hcond : ((s.mem (s.mem b).left).col = .black ∧ (s.mem (s.mem b).right).col = .black) ↔
      ca = .black ∧ ce = .black := by
    cases d with
    | left =>
      rw [show (s.mem b).left = s.ptr a from hba, show (s.mem b).right = s.ptr e from hbe, hacol,
        hecol]
    | right =>
      rw [show (s.mem b).right = s.ptr a from hba, show (s.mem b).left = s.ptr e from hbe, hacol,
        hecol, and_comm]
  by_cases hblack : ca = .black ∧ ce = .black
  · -- the brother is painted red and the parent becomes short
    rw [if_pos (hcond.mpr hblack)]
    obtain ⟨rfl, rfl⟩ := hblack
    obtain ⟨h₁, hs₁⟩ := h.across.setCol .red
    have h₂ := h₁.across.up
    rw [Side.flip_flip] at h₂
    have hbne : b ≠ s.nil := hbro.above.1
    simp only [ne_eq, hbne, not_false_eq_true, if_true, parent_setCol, hp]
    have hnil₁ : ((s.setCol b .red).mem (s.setCol b .red).nil).col = .black := by
      rw [hs₁.nil, hs₁.mem, hnil]
    have hptr : (s.setCol b .red).ptr
        (Frame.fill ⟨d, c, p, Frame.fill ⟨d, .red, b, e⟩ a⟩ t) = p := ptr_fill _ _
    have hbrored : Balanced (Frame.fill ⟨d, .red, b, e⟩ a) .red n := ha.fill_red he
    have hlist : (plug k (Frame.fill ⟨d, c, p, Frame.fill ⟨d, .red, b, e⟩ a⟩ t)).toList =
        (plug (⟨d, c, p, Frame.fill ⟨d, .black, b, e⟩ a⟩ :: k) t).toList := by
      rw [plug, toList_plug, toList_plug]
      cases d <;> simp [Frame.fill]
    rw [← hlist, ← hs₁.nil]
    nth_rewrite 2 [← hptr]
    cases c with
    | red =>
      have hcolor : (Frame.fill ⟨d, .red, p, Frame.fill ⟨d, .red, b, e⟩ a⟩ t).color = .red := by
        cases d <;> rfl
      refine fixed_of_red h₂ hnil₁ hcolor ?_ (hkr rfl).black hfuel
      have := ht.fill_black (d := d) (x := p) hbrored
      cases d <;> exact this
    | black =>
      refine ih rfl _ _ h₂ ?_ hnil₁ (ht.fill_black hbrored)
      cases d <;> simp [Frame.fill]
  · rw [if_neg (mt hcond.mp hblack)]
    obtain ⟨a', b', e', ca', hlaid, hsame, ha', he', hlist⟩ :=
      deleteRotate_laid h hpar hnil ha he hblack
    have hbal : ∃ m, Balanced
        (plug (⟨d, .black, p, a'⟩ :: ⟨d, c, b', e'⟩ :: k) (t.paint .black)) .black m := by
      rw [ht.paint_of_black]
      have hinner := ht.fill_black (d := d) (x := p) ha'
      cases c with
      | red => exact (hkr rfl).plug (hinner.fill_red (d := d) (x := b') he')
      | black => exact (hkb rfl).plug (hinner.fill_black (d := d) (x := b') he')
    have hfixed := hlaid.fixed (by rw [hsame.nil, hsame.mem, hnil]) hbal
    rw [ptr_eq_of_nil hsame.nil, hsame.nil, hlist] at hfixed
    exact hfixed

/-- The loop of `delete_fixup` makes up for the missing black node. -/
theorem deleteFixupLoop_fixed (fuel : Nat) (h : s.Laid k t) (hpar : s.FocusParent k t)
    (hnil : (s.mem s.nil).col = .black) (hshort : Short t n) (hk : HoleBalanced k .black (n + 1))
    (hfuel : k.length < fuel) :
    Fixed s.nil (plug k t).toList (deleteFixupLoop fuel s (s.ptr t)) := by
  induction fuel generalizing s k t n with
  | zero => exact absurd hfuel (Nat.not_lt_zero _)
  | succ fuel ih =>
    rcases hshort with ⟨hred, hbal⟩ | ht
    · exact fixed_of_red h hnil hred hbal hk (Nat.succ_pos _)
    cases k with
    | nil =>
      rw [deleteFixupLoop_exit fuel h hnil (Or.inl rfl)]
      exact h.fixed hnil ⟨n, by rw [ht.paint_of_black]; exact ht⟩
    | cons f k =>
      obtain ⟨d, c, p, u⟩ := f
      simp only [List.length_cons, Nat.add_lt_add_iff_right] at hfuel
      obtain ⟨cu, hu⟩ : ∃ cu, Balanced u cu (n + 1) := by
        cases c with
        | red => exact ⟨_, hk.2.1⟩
        | black => exact hk.1
      have hune : u ≠ .nil := by
        rintro rfl
        cases hu
      have hp : (s.mem (s.ptr t)).parent = p := hpar
      have hside : (if s.ptr t = (s.mem p).left then Side.left else Side.right) = d := by
        rw [← h.side_eq (h.ptr_ne_sibling hune)]
        simp only [eq_comm]
      have hcol : (s.mem (s.ptr t)).col = .black := by rw [h.col_ptr hnil, ht.color_eq]
      unfold deleteFixupLoop
      rw [if_pos ⟨h.ptr_ne_root, hcol⟩]
      simp only [hp, hside]
      cases cu with
      | red =>
        -- the parent is black; after the rotation it is red
        obtain rfl : c = .black := by
          cases c with
          | red => exact absurd (hu.color_eq.symm.trans hk.2.1.color_eq) (by decide)
          | black => rfl
        obtain ⟨b, a, e, rfl, ha, he⟩ := hu.exists_fill_red d
        obtain ⟨h₁, hs₁⟩ := deleteRedBrother_red h hpar hnil
        have hpar₁ := hpar.of_sameNil hs₁ h₁ rfl
        have hfixed := deletePass_fixed h₁ hpar₁ (by rw [hs₁.nil, hs₁.mem, hnil]) ht ha
          (fun _ => ⟨⟨_, he⟩, hk.2⟩) (by simp) (Nat.zero_lt_of_lt hfuel) (by simp)
        have hlist : (plug (⟨d, .red, p, a⟩ :: ⟨d, .black, b, e⟩ :: k) t).toList =
            (plug (⟨d, .black, p, Frame.fill ⟨d, .red, b, e⟩ a⟩ :: k) t).toList := by
          rw [plug, plug, plug, toList_plug, toList_plug]
          cases d <;> simp [Frame.fill]
        rw [hlist, ptr_eq_of_nil hs₁.nil] at hfixed
        rw [← hs₁.nil]
        exact hfixed
      | black =>
        rw [deleteRedBrother_black h hpar hnil hu.color_eq]
        refine deletePass_fixed h hpar hnil ht hu ?_ ?_ (Nat.zero_lt_of_lt hfuel) ?_
        · rintro rfl
          exact hk.2.2
        · rintro rfl
          exact hk.2
        · rintro rfl s₂ t₂ h₂ ht₂ hnil₂ hbal₂
          exact ih h₂ (h₂.parent ht₂) hnil₂ (Or.inr hbal₂) hk.2 hfuel

/-- What `rbtree_delete` leaves to do once the node is unlinked. -/
theorem delete_finish (fuel : Nat) {c' : Color} (h : s.Laid k t) (hpar : s.FocusParent k t)
    (hnil : (s.mem s.nil).col = .black) (hbal : Balanced (Frame.fill ⟨d, c, x, .nil⟩ t) c' n)
    (hk : HoleBalanced k c' n) (hfuel : k.length < fuel) :
    ∃ s' t', (if c = .black then deleteFixup fuel s (s.ptr t) else some s) = some s' ∧
      s'.Represents t' ∧ s'.nil = s.nil ∧ (∃ m, Balanced t' .black m) ∧
      t'.toList = (plug k t).toList := by
  cases c with
  | red =>
    obtain ⟨rfl, ht⟩ : c' = .red ∧ Balanced t .black n := by
      cases d with
      | left => exact ⟨hbal.of_red.1, hbal.of_red.2.1⟩
      | right => exact ⟨hbal.of_red.1, hbal.of_red.2.2⟩
    exact ⟨s, _, rfl, ⟨h.whole, hnil⟩, rfl, hk.black.plug ht, rfl⟩
  | black =>
    obtain ⟨m, ct, rfl, rfl, ht⟩ : ∃ m ct, c' = .black ∧ n = m + 1 ∧ Balanced t ct m := by
      cases d with
      | left => grind [hbal.of_black]
      | right => grind [hbal.of_black]
    have hshort : Short t m := by
      cases ct with
      | red => exact Or.inl ⟨ht.color_eq, ht.paint_black⟩
      | black => exact Or.inr ht
    obtain ⟨r, t', hr, hrep, hn, hm, hlist⟩ :=
      deleteFixupLoop_fixed fuel h hpar hnil hshort hk hfuel
    refine ⟨r.1.setCol r.2 .black, t', ?_, hrep, hn, hm, hlist⟩
    simp [deleteFixup, hr]

theorem leftmost_spec {p fuel : Nat} (h : s.TreeAt t p) (ht : t ≠ .nil)
    (hfuel : t.toList.length ≤ fuel) :
    ∃ j cy y ry, t = plug j (.node cy .nil y ry) ∧ Ctx.before j = [] ∧
      leftmost s fuel (s.ptr t) = some y := by
  suffices ∀ k : Ctx Nat, Ctx.before k = [] → ∃ j cy y ry, plug k t = plug j (.node cy .nil y ry) ∧
      Ctx.before j = [] ∧ leftmost s fuel (s.ptr t) = some y from this [] rfl
  induction t generalizing p fuel with
  | nil => exact absurd rfl ht
  | node c l x r ihl _ =>
    intro k hk
    obtain ⟨-, hxm, htl, -⟩ := h
    simp only [Tree.toList_node, List.length_append, List.length_cons] at hfuel
    obtain ⟨fuel, rfl⟩ : ∃ f, fuel = f + 1 := ⟨fuel - 1, by omega⟩
    change ∃ j cy y ry, _ ∧ _ ∧ leftmost s (fuel + 1) x = some y
    unfold leftmost
    rw [hxm]
    cases l with
    | nil => exact ⟨k, c, x, r, rfl, hk, if_neg (by simp [ptr])⟩
    | node cl ll xl rl =>
      rw [if_pos (by exact htl.1)]
      exact ihl htl (by simp) (by omega) (⟨.left, c, x, r⟩ :: k) hk

/-- The successor takes the place of a node with two children. -/
theorem deleteReplace_laid {cy : Color} {y : Nat} {l ry : Tree Nat} {j : Ctx Nat}
    (h : s.Laid k (.node c l x (plug j (.node cy .nil y ry)))) (hl : l ≠ .nil)
    (hnil : (s.mem s.nil).col = .black) :
    (s.deleteReplace x y).Laid (j ++ ⟨.right, c, y, l⟩ :: k) ry ∧
      (s.deleteReplace x y).nil = s.nil ∧ ((s.deleteReplace x y).mem s.nil).col = .black ∧
      (s.deleteReplace x y).FocusParent (j ++ ⟨.right, c, y, l⟩ :: k) ry := by
  obtain ⟨hlaid, hn, hcol, hpar⟩ : (s.deleteReplace x y).Laid k (.node c l y (plug j ry)) ∧
      (s.deleteReplace x y).nil = s.nil ∧
      ((s.deleteReplace x y).mem s.nil).col = (s.mem s.nil).col ∧
      (ry = .nil → ((s.deleteReplace x y).mem s.nil).parent =
        s.parentOf (j ++ ⟨.right, c, y, l⟩ :: k)) := by
    cases j with
    | nil => exact deleteReplace_child h hl
    | cons f j => exact deleteReplace_deep h hl
  have hfocus : (s.deleteReplace x y).Laid (j ++ ⟨.right, c, y, l⟩ :: k) ry :=
    laid_append.mpr (Laid.down (f := ⟨.right, c, y, l⟩) hlaid)
  refine ⟨hfocus, hn, hcol.trans hnil, ?_⟩
  by_cases hry : ry = .nil
  · have := hpar hry
    subst hry
    change ((s.deleteReplace x y).mem (s.deleteReplace x y).nil).parent = _
    rw [hn, this, parentOf_eq_of_nil hn]
  · exact hfocus.parent hry

/-- `rbtree_delete` returns, keeps balance, and takes one label out. -/
theorem rbtreeDelete_spec {m fuel : Nat} (h : s.Represents t) (hbal : Balanced t .black m)
    (hx : x ∈ t.toList) (hnull : x ≠ 0) (hfuel : t.toList.length < fuel) :
    ∃ s' t', rbtreeDelete fuel s x = some s' ∧ s'.Represents t' ∧ (∃ m, Balanced t' .black m) ∧
      t'.toList.Sublist t.toList ∧ t.toList.Perm (x :: t'.toList) ∧ s'.nil = s.nil := by
  obtain ⟨k, c, l, r, rfl⟩ := exists_plug_of_mem hx
  have hlaid : s.Laid k (.node c l x r) := by
    have := h.laid
    rw [← List.append_nil k]
    exact laid_append.mpr this
  obtain ⟨hxne, hxm, htl, htr⟩ := hlaid.tree
  obtain ⟨c', n, hsub, hhole⟩ := balanced_plug_iff.mp ⟨m, hbal⟩
  have hklen : k.length < fuel := Nat.lt_of_le_of_lt (length_ctx_le k _) hfuel
  have hsublist : ∀ u : Tree Nat, u.toList = l.toList ++ r.toList →
      (plug k u).toList.Sublist (plug k (.node c l x r)).toList ∧
        (plug k (.node c l x r)).toList.Perm (x :: (plug k u).toList) := by
    intro u hu
    simp only [toList_plug, hu, Tree.toList_node]
    constructor
    · grind
    · grind
  unfold rbtreeDelete
  rw [if_neg hnull, hxm]
  by_cases hl : l = .nil
  · subst hl
    rw [if_pos (show s.ptr .nil = s.nil from rfl)]
    obtain ⟨h₁, hn₁, hpar₁, hcol₁⟩ := replaceNode_laid (d := .right) hlaid
    obtain ⟨s', t', hs', hrep, hn', hm', hlist⟩ := delete_finish fuel h₁
      (by rw [FocusParent, ptr_eq_of_nil hn₁, parentOf_eq_of_nil hn₁]; exact hpar₁)
      (by rw [hn₁, hcol₁, h.nilCol]) (d := .right) hsub hhole hklen
    rw [ptr_eq_of_nil hn₁] at hs'
    obtain ⟨hsl, hperm⟩ := hsublist r rfl
    exact ⟨s', t', hs', hrep, hm', hlist ▸ hsl, hlist ▸ hperm, hn'.trans hn₁⟩
  · have hlne : ¬ s.ptr l = s.nil := by
      have hlp : s.ptr l ∈ l.toList := (s.ptr_mem l).resolve_left fun h => hl h.1
      exact htl.ne_nil hlp
    rw [if_neg hlne]
    by_cases hr : r = .nil
    · subst hr
      rw [if_pos (show s.ptr .nil = s.nil from rfl)]
      obtain ⟨h₁, hn₁, hpar₁, hcol₁⟩ := replaceNode_laid (d := .left) hlaid
      obtain ⟨s', t', hs', hrep, hn', hm', hlist⟩ := delete_finish fuel h₁
        (by rw [FocusParent, ptr_eq_of_nil hn₁, parentOf_eq_of_nil hn₁]; exact hpar₁)
        (by rw [hn₁, hcol₁, h.nilCol]) (d := .left) hsub hhole hklen
      rw [ptr_eq_of_nil hn₁] at hs'
      obtain ⟨hsl, hperm⟩ := hsublist l (by simp)
      exact ⟨s', t', hs', hrep, hm', hlist ▸ hsl, hlist ▸ hperm, hn'.trans hn₁⟩
    · have hrne : ¬ s.ptr r = s.nil := by
        have hrp : s.ptr r ∈ r.toList := (s.ptr_mem r).resolve_left fun h => hr h.1
        exact htr.ne_nil hrp
      rw [if_neg hrne]
      have hrlen : r.toList.length ≤ fuel := by grind [toList_plug, Tree.toList_node]
      obtain ⟨j, cy, y, ry, rfl, hj, hleft⟩ := leftmost_spec htr hr hrlen
      obtain ⟨h₁, hn₁, hcol₁, hpar₁⟩ := deleteReplace_laid hlaid hl h.nilCol
      have hfocus : s.Laid (j ++ ⟨.right, c, x, l⟩ :: k) (.node cy .nil y ry) :=
        laid_append.mpr (Laid.down (f := ⟨.right, c, x, l⟩) hlaid)
      have hym := hfocus.tree.2.1
      have hplug : plug k (.node c l x (plug j (.node cy .nil y ry))) =
          plug (j ++ ⟨.right, c, x, l⟩ :: k) (.node cy .nil y ry) := by
        rw [plug_append]
        rfl
      rw [hplug] at hbal
      obtain ⟨c'', n', hsub', hhole'⟩ := balanced_plug_iff.mp ⟨m, hbal⟩
      have hlen : (j ++ ⟨.right, c, y, l⟩ :: k).length < fuel := by grind [length_ctx_le]
      obtain ⟨s', t', hs', hrep, hn', hm', hlist⟩ := delete_finish fuel h₁ hpar₁
        (by rw [hn₁, hcol₁]) (d := .right) hsub' (holeBalanced_relabel hhole') hlen
      rw [ptr_eq_of_nil hn₁] at hs'
      obtain ⟨hsl, hperm⟩ := hsublist (.node c l y (plug j ry)) (by simp [toList_plug, hj])
      rw [plug_append] at hlist
      refine ⟨s', t', ?_, hrep, hm', ?_, ?_, hn'.trans hn₁⟩
      · grind
      · rw [hlist]
        exact hsl
      · rw [hlist]
        exact hperm

end Delete

end RbTree

end Ukernel.Lib
