import Mathlib.Data.List.Rotate
import Ukernel.Kernel.Errno
import Ukernel.Sync.Threads

/-!
# Round robin

`schedule_if_needed` of `kernel/process.c` over many steps. `find_next_runnable` scans the threads
behind the running one and then those in front of it. What the two scans share is that only the
ready threads count: with these numbered in the order of the list, a step goes from each number to
the next one, and from the last one to the first.

## Main definitions

* `Sched.scheduleStatus`: what `schedule_if_needed` answers
* `Sched.readyThreads`: the ready threads in the order of the list

## Main results

* `Sched.scheduleIfNeeded_run`: a step moves to the next ready thread
* `Sched.schedule_round`: as many steps as there are ready threads go once around the list
-/

namespace Ukernel.Sync.Sched

open Kernel

variable {s : Sched} {xs ys : List Nat} {t : Nat}

/-- The answer of `schedule_if_needed`, which is 0 if another thread runs from now on. -/
def scheduleStatus (s : Sched) : Int :=
  match s.run with
  | none => eNodev
  | some current =>
    match (s.findNextRunnable current).1 with
    | none => eNodev
    | some next => if next = current then eNodev else 0

/-- A thread can run. -/
def isReady (s : Sched) (t : Nat) : Bool := (s.thread t).state == .ready

/-- The threads that can run, in the order of the list. -/
def readyThreads (s : Sched) : List Nat := s.order.filter s.isReady

theorem candidates_eq (horder : s.order = xs ++ t :: ys) (hnodup : s.order.Nodup) :
    s.candidates t = ys ++ xs := by
  have hfront : ∀ x ∈ xs, (x ≠ t : Bool) := by
    intro x hx
    rw [horder] at hnodup
    simpa using (List.nodup_append.mp hnodup).2.2 x hx t List.mem_cons_self
  unfold candidates
  rw [horder, List.dropWhile_append_of_pos hfront, List.takeWhile_append_of_pos hfront]
  simp

/-- The thread found is the first ready one of those looked at. -/
theorem findNextRunnable_fst (s : Sched) (current : Nat) :
    (s.findNextRunnable current).1 = ((s.candidates current).filter s.isReady).head? := by
  rw [List.head?_filter]
  unfold findNextRunnable isReady
  split
  · rename_i hfind
    exact hfind.symm
  · rename_i hfind
    exact hfind.symm

theorem scheduleIfNeeded_run_eq (hrun : s.run = some t) :
    s.scheduleIfNeeded.run =
      (((s.candidates t).filter s.isReady).head?.or (some t)) := by
  rw [← findNextRunnable_fst]
  unfold scheduleIfNeeded
  rw [hrun]
  rcases s.findNextRunnable_cases t with ⟨-, heq⟩ | ⟨next, -, -, heq⟩
  · simp [heq, hrun]
  · simp [heq]

/-- The list split at a ready thread, and its ready threads split there too. -/
theorem exists_split (ht : t ∈ s.readyThreads) :
    ∃ xs ys, s.order = xs ++ t :: ys ∧
      s.readyThreads = xs.filter s.isReady ++ t :: ys.filter s.isReady := by
  obtain ⟨hmem, hready⟩ := List.mem_filter.mp ht
  obtain ⟨xs, ys, horder⟩ := List.append_of_mem hmem
  refine ⟨xs, ys, horder, ?_⟩
  rw [readyThreads, horder, List.filter_append, List.filter_cons_of_pos hready]

/-- A step goes from a ready thread to the next one, cyclically. -/
theorem scheduleIfNeeded_run (hnodup : s.order.Nodup) {i : Nat}
    (hi : i < s.readyThreads.length) (hrun : s.run = s.readyThreads[i]?) :
    s.scheduleIfNeeded.run = s.readyThreads[(i + 1) % s.readyThreads.length]? := by
  have hget := List.getElem?_eq_getElem hi
  have hready := hnodup.filter s.isReady
  obtain ⟨xs, ys, horder, hsplit⟩ := exists_split (List.getElem_mem hi)
  rw [scheduleIfNeeded_run_eq (hrun.trans hget), candidates_eq horder hnodup, List.filter_append]
  generalize s.readyThreads[i] = c at *
  -- the number of the running thread is the number of ready threads in front of it
  obtain rfl : i = (xs.filter s.isReady).length := by
    refine (List.getElem?_inj hi hready).mp (hget.trans ?_)
    rw [hsplit, List.getElem?_append_right (Nat.le_refl _), Nat.sub_self, List.getElem?_cons_zero]
  rw [hsplit]
  -- behind it there is a ready thread, or there is none and the scan starts over
  cases hys : ys.filter s.isReady with
  | cons y l =>
    rw [Nat.mod_eq_of_lt (by simp), List.getElem?_append_right (by omega)]
    simp
  | nil =>
    cases xs.filter s.isReady <;> simp

/-- With two ready threads a step finds another one. -/
theorem scheduleStatus_eq_zero (hnodup : s.order.Nodup) (ht : t ∈ s.readyThreads)
    (hrun : s.run = some t) (htwo : 1 < s.readyThreads.length) : s.scheduleStatus = 0 := by
  obtain ⟨xs, ys, horder, hsplit⟩ := exists_split ht
  have hcand := candidates_eq horder hnodup
  have hfst := s.findNextRunnable_fst t
  rw [hcand, List.filter_append] at hfst
  unfold scheduleStatus
  simp only [hrun]
  rw [hfst]
  cases hlist : ys.filter s.isReady ++ xs.filter s.isReady with
  | nil =>
    obtain ⟨hys, hxs⟩ := List.append_eq_nil_iff.mp hlist
    simp [hsplit, hys, hxs] at htwo
  | cons next l =>
    -- the running thread is not among those looked at
    have hmem : next ∈ s.candidates t := by
      rw [hcand]
      rw [← List.filter_append] at hlist
      exact List.mem_of_mem_filter (hlist ▸ List.mem_cons_self)
    simp only [List.head?_cons]
    rw [if_neg]
    rintro rfl
    exact not_mem_candidates hnodup _ hmem

/-- What stays the same while threads only yield: the list and the states. -/
structure SameReady (s s₀ : Sched) : Prop where
  order : s.order = s₀.order
  state : ∀ t, (s.thread t).state = (s₀.thread t).state

theorem SameReady.isReady_eq {s₀ : Sched} (h : s.SameReady s₀) : s.isReady = s₀.isReady := by
  ext t
  rw [isReady, isReady, h.state]

theorem SameReady.readyThreads_eq {s₀ : Sched} (h : s.SameReady s₀) :
    s.readyThreads = s₀.readyThreads := by
  rw [readyThreads, readyThreads, h.order, h.isReady_eq]

section Rounds

variable {f : Nat → Sched} {n : Nat} (hnodup : (f 0).order.Nodup)
  (hsame : ∀ k < n, (f k).SameReady (f 0))
  (hstep : ∀ k < n, (f (k + 1)).run = (f k).scheduleIfNeeded.run)

include hnodup hsame hstep in
/-- After `k` steps the ready thread `k` places further runs. -/
theorem run_after_steps {i : Nat} (hi : i < (f 0).readyThreads.length)
    (hrun : (f 0).run = (f 0).readyThreads[i]?) {k : Nat} (hk : k ≤ n) :
    (f k).run = (f 0).readyThreads[(i + k) % (f 0).readyThreads.length]? := by
  induction k with
  | zero => rw [hrun, Nat.add_zero, Nat.mod_eq_of_lt hi]
  | succ k ih =>
    have hready := (hsame k hk).readyThreads_eq
    have hlt := Nat.mod_lt (i + k) (Nat.zero_lt_of_lt hi)
    rw [hstep k hk, scheduleIfNeeded_run ((hsame k hk).order ▸ hnodup) (hready ▸ hlt)
      (hready ▸ ih (Nat.le_of_succ_le hk)), hready, Nat.mod_add_mod, Nat.add_assoc]

include hnodup hsame hstep in
/-- As many steps as there are ready threads run each of them once, those behind the running thread
first, then those in front of it and at last the thread itself. If there is more than one, every
step succeeds. -/
theorem schedule_round (horder : (f 0).order = xs ++ t :: ys) (hrun : (f 0).run = some t)
    (hready : ((f 0).thread t).state = .ready) (hn : (f 0).readyThreads.length = n) :
    (List.range n).map (fun k => (f (k + 1)).run) =
        ((ys ++ xs ++ [t]).filter (f 0).isReady).map some ∧
      (∀ u ∈ (f 0).order, ((f 0).thread u).state = .ready →
        ∃! k, k < n ∧ (f (k + 1)).run = some u) ∧
      (f n).run = some t ∧
      (1 < n → ∀ k < n, (f k).scheduleStatus = 0) := by
  have hreadyT : (f 0).isReady t := by simp [isReady, hready]
  have hsplit : (f 0).readyThreads =
      xs.filter (f 0).isReady ++ t :: ys.filter (f 0).isReady := by
    rw [readyThreads, horder, List.filter_append, List.filter_cons_of_pos hreadyT]
  have hrotate : (ys ++ xs ++ [t]).filter (f 0).isReady =
      (f 0).readyThreads.rotate ((xs.filter (f 0).isReady).length + 1) := by
    have hlen : (xs.filter (f 0).isReady).length + 1 =
        (xs.filter (f 0).isReady ++ [t]).length := by simp
    rw [hsplit, List.append_cons (xs.filter _), hlen, List.rotate_append_length_eq]
    simp [hreadyT]
  have hfront : (xs.filter (f 0).isReady).length < (f 0).readyThreads.length := by simp [hsplit]
  have hruns {k : Nat} (hk : k ≤ n) :=
    run_after_steps hnodup hsame hstep hfront (by simp [hsplit, hrun]) hk
  have hround : (List.range n).map (fun k => (f (k + 1)).run) =
      ((ys ++ xs ++ [t]).filter (f 0).isReady).map some := by
    rw [hrotate]
    refine List.ext_getElem (by simp [hn]) fun k hk _ => ?_
    simp only [List.length_map, List.length_range] at hk
    have hlt := Nat.mod_lt ((xs.filter (f 0).isReady).length + k.succ) (Nat.zero_lt_of_lt hfront)
    simp only [List.getElem_map, List.getElem_range, List.getElem_rotate]
    rw [hruns hk, List.getElem?_eq_getElem hlt]
    grind
  refine ⟨hround, ?_, ?_, ?_⟩
  · intro u hu hstate
    -- no thread stands twice in the list of the runs
    have hnodupRuns : ((List.range n).map fun k => (f (k + 1)).run).Nodup := by
      rw [hround, hrotate]
      exact (List.nodup_rotate.mpr (hnodup.filter _)).map (Option.some_injective _)
    have hmem : some u ∈ (List.range n).map fun k => (f (k + 1)).run := by
      rw [hround, hrotate]
      simp [readyThreads, isReady, hu, hstate]
    obtain ⟨k, hk, hu⟩ := List.mem_map.mp hmem
    refine ⟨k, ⟨List.mem_range.mp hk, hu⟩, ?_⟩
    rintro j ⟨hj, hju⟩
    exact List.inj_on_of_nodup_map hnodupRuns (List.mem_range.mpr hj) hk (hju.trans hu.symm)
  · rw [hruns (Nat.le_refl n), hn, Nat.add_mod_right, Nat.mod_eq_of_lt (hn ▸ hfront), hsplit]
    simp
  · intro htwo k hk
    have hreadyk := (hsame k hk).readyThreads_eq
    have hlt := Nat.mod_lt ((xs.filter (f 0).isReady).length + k) (Nat.zero_lt_of_lt hfront)
    have hget := hruns hk.le
    rw [List.getElem?_eq_getElem hlt] at hget
    refine scheduleStatus_eq_zero ((hsame k hk).order ▸ hnodup) ?_ hget ?_
    · rw [hreadyk]
      exact List.getElem_mem hlt
    · rw [hreadyk, hn]
      exact htwo

end Rounds

/-- Three threads of which the second one waits, after some steps. -/
def twoReady (k : Nat) : Sched :=
  ⟨[1, 2, 3], fun t => ⟨0, if t = 2 then .pending else .ready, false, 0, 0⟩,
    some (if k % 2 = 0 then 1 else 3), fun _ => []⟩

/-- Two steps run the third thread and then the first one again. -/
theorem schedule_round_twoReady :
    (List.range 2).map (fun k => (twoReady (k + 1)).run) = [some 3, some 1] ∧
      ∀ k < 2, (twoReady k).scheduleStatus = 0 := by
  have horder : (twoReady 0).order = [] ++ 1 :: [2, 3] := rfl
  have h := schedule_round (f := twoReady) (n := 2) (by decide) (fun _ _ => ⟨rfl, fun _ => rfl⟩)
    (by decide) horder rfl rfl rfl
  exact ⟨h.1, h.2.2.2 (by decide)⟩

end Ukernel.Sync.Sched
