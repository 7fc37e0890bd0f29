import Mathlib.Data.List.Infix
import SheetDoc.Proofs.Store.Users

namespace SheetDoc.Users

open Relation

/-- One more entry among the users at an index. -/
def push (g : Users) (t : Int) (entry : Usage) : Users := fun a =>
  if a = t then g a ++ [entry] else g a

/-- The users after some requests, by the decisions that linking makes. No later edge overturns one: an
edge is only added where it closes no cycle, so what did not lead to its target never will. -/
inductive Grows (start : Users) : List (Reference × Int) → Users → Prop
  | start : Grows start [] start
  | cut {asked g u t} : Grows start asked g → ReflTransGen g.Leads u.uid t →
      Grows start (asked ++ [(u, t)]) (g.push t .circular)
  | again {asked g u t} : Grows start asked g → ¬ReflTransGen g.Leads u.uid t →
      .user u ∈ g t → Grows start (asked ++ [(u, t)]) g
  | user {asked g u t} : Grows start asked g → ¬ReflTransGen g.Leads u.uid t →
      .user u ∉ g t → Grows start (asked ++ [(u, t)]) (g.push t (.user u))

variable {g : Users} {t : Int}

theorem mem_push {entry other : Usage} {a : Int} :
    other ∈ g.push t entry a ↔ other ∈ g a ∨ a = t ∧ other = entry := by
  unfold push
  split <;> simp [*]

theorem leads_push_circular : (g.push t .circular).Leads = g.Leads := by
  funext a b
  simp [Leads, mem_push]

theorem leads_push_user {u : Reference} {a b : Int} :
    (g.push t (.user u)).Leads a b ↔ g.Leads a b ∨ a = t ∧ u.uid = b := by
  constructor
  · rintro ⟨v, member, index⟩
    rcases mem_push.mp member with old | ⟨here, same⟩
    · exact Or.inl ⟨v, old, index⟩
    · cases same
      exact Or.inr ⟨here, index⟩
  · rintro (⟨v, member, index⟩ | ⟨here, index⟩)
    · exact ⟨v, mem_push.mpr (Or.inl member), index⟩
    · exact ⟨u, mem_push.mpr (Or.inr ⟨here, rfl⟩), index⟩

theorem leads_push_of_leads {entry : Usage} {a b : Int} (edge : g.Leads a b) :
    (g.push t entry).Leads a b := by
  obtain ⟨v, member, index⟩ := edge
  exact ⟨v, mem_push.mpr (Or.inl member), index⟩

theorem path_push {entry : Usage} {a b : Int} (path : ReflTransGen g.Leads a b) :
    ReflTransGen (g.push t entry).Leads a b :=
  ReflTransGen.mono (fun _ _ edge => leads_push_of_leads edge) a b path

/-- A walk over one added edge can be cut short to cross it once. -/
theorem walk_push_user {u : Reference} {a b : Int}
    (walk : TransGen (g.push t (.user u)).Leads a b) :
    TransGen g.Leads a b ∨ ReflTransGen g.Leads a t ∧ ReflTransGen g.Leads u.uid b := by
  induction walk with
  | single edge =>
    rcases leads_push_user.mp edge with old | ⟨rfl, rfl⟩
    · exact Or.inl (TransGen.single old)
    · exact Or.inr ⟨ReflTransGen.refl, ReflTransGen.refl⟩
  | tail _ edge ih =>
    rcases leads_push_user.mp edge with old | ⟨rfl, rfl⟩
    · rcases ih with direct | ⟨before, after⟩
      · exact Or.inl (direct.tail old)
      · exact Or.inr ⟨before, after.tail old⟩
    · rcases ih with direct | ⟨before, _⟩
      · exact Or.inr ⟨direct.to_reflTransGen, ReflTransGen.refl⟩
      · exact Or.inr ⟨before, ReflTransGen.refl⟩

theorem path_push_user {u : Reference} {a b : Int}
    (path : ReflTransGen (g.push t (.user u)).Leads a b) :
    ReflTransGen g.Leads a b ∨ ReflTransGen g.Leads a t ∧ ReflTransGen g.Leads u.uid b := by
  rcases reflTransGen_iff_eq_or_transGen.mp path with rfl | walk
  · exact Or.inl ReflTransGen.refl
  · exact (walk_push_user walk).imp_left TransGen.to_reflTransGen

theorem not_path_push_self {u : Reference} (apart : ¬ReflTransGen g.Leads u.uid t) :
    ¬ReflTransGen (g.push t (.user u)).Leads u.uid t := by
  intro path
  rcases path_push_user path with old | ⟨old, _⟩
  · exact apart old
  · exact apart old

/-- An edge against which there is no path closes no cycle. -/
theorem Acyclic.push_user {u : Reference} (acyclic : g.Acyclic)
    (apart : ¬ReflTransGen g.Leads u.uid t) : (g.push t (.user u)).Acyclic := by
  intro a walk
  rcases walk_push_user walk with old | ⟨before, after⟩
  · exact acyclic a old
  · exact apart (after.trans before)

/-- What does not lead back along an edge is not made to by an edge that closes no cycle. -/
theorem apart_push_user {u : Reference} {a b : Int} (edge : g.Leads b a)
    (away : ¬ReflTransGen g.Leads a b) (apart : ¬ReflTransGen g.Leads u.uid t) :
    ¬ReflTransGen (g.push t (.user u)).Leads a b := by
  intro path
  rcases path_push_user path with old | ⟨before, after⟩
  · exact away old
  · exact apart ((after.tail edge).trans before)

namespace Grows

variable {start : Users} {asked : List (Reference × Int)}

theorem acyclic (grows : Grows start asked g) (before : start.Acyclic) : g.Acyclic := by
  induction grows with
  | start => exact before
  | cut _ _ ih =>
    intro a
    rw [leads_push_circular]
    exact ih a
  | again _ _ _ ih => exact ih
  | user _ apart _ ih => exact ih.push_user apart

/-- Every request has left its trace: a user where the record does not lead to what it requires,
and the mark of a cut where it does. Which of the two it is does not change any more. -/
theorem answered (grows : Grows start asked g) {u : Reference} (member : (u, t) ∈ asked) :
    ¬ReflTransGen g.Leads u.uid t ∧ .user u ∈ g t ∨
      ReflTransGen g.Leads u.uid t ∧ .circular ∈ g t := by
  induction grows with
  | start => cases member
  | @cut asked g v s previous path ih =>
    rcases List.mem_append.mp member with old | new
    · simp only [leads_push_circular, mem_push]
      exact (ih old).imp (And.imp_right Or.inl) (And.imp_right Or.inl)
    · cases List.mem_singleton.mp new
      exact Or.inr ⟨path_push path, mem_push.mpr (Or.inr ⟨rfl, rfl⟩)⟩
  | again previous apart known ih =>
    rcases List.mem_append.mp member with old | new
    · exact ih old
    · cases List.mem_singleton.mp new
      exact Or.inl ⟨apart, known⟩
  | @user asked g v s previous apart fresh ih =>
    rcases List.mem_append.mp member with old | new
    · rcases ih old with ⟨away, known⟩ | ⟨path, marked⟩
      · exact Or.inl ⟨apart_push_user ⟨u, known, rfl⟩ away apart, mem_push.mpr (Or.inl known)⟩
      · exact Or.inr ⟨path_push path, mem_push.mpr (Or.inl marked)⟩
    · cases List.mem_singleton.mp new
      exact Or.inl ⟨not_path_push_self apart, mem_push.mpr (Or.inr ⟨rfl, rfl⟩)⟩

/-- An edge that closes no cycle changes the answer to no earlier request. -/
theorem path_push_iff (grows : Grows start asked g) {u v : Reference} {s : Int}
    (apart : ¬ReflTransGen g.Leads v.uid s) (member : (u, t) ∈ asked) :
    ReflTransGen (g.push s (.user v)).Leads u.uid t ↔ ReflTransGen g.Leads u.uid t := by
  refine ⟨fun after => ?_, path_push⟩
  rcases grows.answered member with ⟨away, known⟩ | ⟨path, _⟩
  · exact absurd after (apart_push_user ⟨u, known, rfl⟩ away apart)
  · exact path

theorem user_origin (grows : Grows start asked g) {u : Reference} (member : .user u ∈ g t) :
    .user u ∈ start t ∨ (u, t) ∈ asked := by
  induction grows with
  | start => exact Or.inl member
  | cut _ _ ih =>
    rcases mem_push.mp member with old | ⟨_, same⟩
    · exact (ih old).imp_right (List.mem_append_left _)
    · cases same
  | again _ _ _ ih => exact (ih member).imp_right (List.mem_append_left _)
  | user _ _ _ ih =>
    rcases mem_push.mp member with old | ⟨here, same⟩
    · exact (ih old).imp_right (List.mem_append_left _)
    · cases same
      subst here
      exact Or.inr (List.mem_append_right _ List.mem_cons_self)

/-- No record is listed twice among the users of one. -/
theorem nodup (grows : Grows start asked g) (before : ∀ a, ((start a).filter (· ≠ .circular)).Nodup)
    (a : Int) : ((g a).filter (· ≠ .circular)).Nodup := by
  induction grows with
  | start => exact before a
  | again _ _ _ ih => exact ih
  | cut _ _ ih =>
    unfold push
    split
    · simpa using ih
    · exact ih
  | @user asked g u t _ _ fresh ih =>
    unfold push
    split
    · rename_i here
      subst here
      rw [List.filter_append, List.nodup_append]
      refine ⟨ih, by simp, ?_⟩
      intro v old w new same
      simp only [List.filter_cons, List.filter_nil] at new
      have last : w = .user u := by simpa using new
      exact fresh (last ▸ same ▸ List.mem_of_mem_filter old)
    · exact ih

theorem count_push_circular (s a : Int) :
    (g.push s .circular a).count .circular =
      (g a).count .circular + if s = a then 1 else 0 := by
  unfold push
  by_cases here : a = s
  · simp [here]
  · simp [here, Ne.symm here]

theorem count_push_user (s a : Int) (u : Reference) :
    (g.push s (.user u) a).count .circular = (g a).count .circular := by
  unfold push
  split <;> simp

open scoped Classical in
/-- There is one mark of a cut for each request of a record that leads to what it requires. -/
theorem count_circular (grows : Grows start asked g) (a : Int) :
    (g a).count .circular = (start a).count .circular +
      asked.countP fun q => q.2 = a ∧ ReflTransGen g.Leads q.1.uid q.2 := by
  induction grows with
  | start => simp
  | @cut asked g u s previous path ih =>
    rw [count_push_circular, ih, leads_push_circular, List.countP_append, List.countP_singleton]
    simp [path, Nat.add_assoc]
  | @again asked g u s previous apart known ih =>
    rw [ih, List.countP_append, List.countP_singleton]
    simp [apart]
  | @user asked g u s previous apart fresh ih =>
    have same : ∀ q ∈ asked,
        (decide (q.2 = a ∧ ReflTransGen (g.push s (.user u)).Leads q.1.uid q.2) = true ↔
          decide (q.2 = a ∧ ReflTransGen g.Leads q.1.uid q.2) = true) := by
      intro q member
      simp only [decide_eq_true_eq, previous.path_push_iff apart member]
    have last := not_path_push_self apart
    rw [count_push_user, ih, List.countP_append, List.countP_singleton, List.countP_congr same]
    simp [last]

theorem circular_origin (grows : Grows start asked g) (marked : .circular ∈ g t) :
    .circular ∈ start t ∨ ∃ u, (u, t) ∈ asked ∧ ReflTransGen g.Leads u.uid t := by
  classical
  by_cases before : .circular ∈ start t
  · exact Or.inl before
  · have positive := List.count_pos_iff.mpr marked
    rw [grows.count_circular, List.count_eq_zero.mpr before, Nat.zero_add, List.countP_pos_iff]
      at positive
    obtain ⟨⟨u, s⟩, member, holds⟩ := positive
    obtain ⟨rfl, path⟩ := of_decide_eq_true holds
    exact Or.inr ⟨u, member, path⟩

end Grows

/-- Marks lead nowhere. -/
theorem leads_of_marks {g g' : Users} {n : Int → Nat}
    (marks : ∀ a, g' a = g a ++ List.replicate (n a) .circular) : g'.Leads = g.Leads := by
  funext a b
  simp [Leads, marks]

open scoped Classical in
/-- Requests that were decided before leave nothing but marks, one for each that leads to what it
requires. -/
theorem Grows.settled {g g' : Users} {asked : List (Reference × Int)} (grows : Grows g asked g')
    (decided : ∀ q ∈ asked, ReflTransGen g.Leads q.1.uid q.2 ∨ .user q.1 ∈ g q.2) (a : Int) :
    g' a = g a ++ List.replicate
      (asked.countP fun q => q.2 = a ∧ ReflTransGen g.Leads q.1.uid q.2) .circular := by
  induction grows generalizing a with
  | start => simp
  | @cut asked g₁ u t previous path ih =>
    have before := ih fun q old => decided q (List.mem_append_left _ old)
    rw [leads_of_marks before] at path
    rw [push, before, List.countP_append, List.countP_singleton]
    by_cases here : a = t
    · simp [here, path, ← List.replicate_succ']
    · simp [here, Ne.symm here]
  | @again asked g₁ u t previous apart known ih =>
    have before := ih fun q old => decided q (List.mem_append_left _ old)
    rw [leads_of_marks before] at apart
    rw [before, List.countP_append, List.countP_singleton]
    simp [apart]
  | @user asked g₁ u t previous apart fresh ih =>
    have before := ih fun q old => decided q (List.mem_append_left _ old)
    rw [leads_of_marks before] at apart
    rcases decided (u, t) (List.mem_append_right _ List.mem_cons_self) with path | known
    · exact absurd path apart
    · exact absurd (before t ▸ List.mem_append_left _ known) fresh

theorem acyclic_of_empty {g : Users} (empty : ∀ a, g a = []) : g.Acyclic := by
  intro a walk
  obtain ⟨_, ⟨_, member, _⟩, _⟩ := TransGen.head'_iff.mp walk
  simp [empty] at member

/-- One index requires another by one of the requests. -/
def Requests (asked : List (Reference × Int)) (a b : Int) : Prop :=
  ∃ u : Reference, (u, b) ∈ asked ∧ u.uid = a

/-- A request is cut exactly when the requests as a whole, in whatever order they come, go round in
a circle. -/
theorem Grows.circular_iff {start : Users} {asked : List (Reference × Int)}
    (grows : Grows start asked g) (empty : ∀ a, start a = []) :
    (∃ a, .circular ∈ g a) ↔ ∃ a, TransGen (Requests asked) a a := by
  have reversed : ∀ a b, g.Leads a b → Requests asked b a := by
    rintro a b ⟨u, member, rfl⟩
    rcases grows.user_origin member with old | new
    · simp [empty] at old
    · exact ⟨u, new, rfl⟩
  constructor
  · rintro ⟨t, marked⟩
    rcases grows.circular_origin marked with old | ⟨u, member, path⟩
    · simp [empty] at old
    · have back := reflTransGen_swap.mp (ReflTransGen.mono reversed u.uid t path)
      exact ⟨t, TransGen.tail' back ⟨u, member, rfl⟩⟩
  · rintro ⟨a, circle⟩
    by_contra none
    have forward : ∀ a b, Requests asked a b → g.Leads b a := by
      rintro _ b ⟨u, member, rfl⟩
      rcases grows.answered member with ⟨_, known⟩ | ⟨_, marked⟩
      · exact ⟨u, known, rfl⟩
      · exact absurd ⟨b, marked⟩ none
    exact grows.acyclic (acyclic_of_empty empty) a (transGen_swap.mp (TransGen.mono forward a a circle))

end SheetDoc.Users
