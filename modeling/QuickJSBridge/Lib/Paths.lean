import Mathlib.Data.List.Basic

/-!
# Relative paths

A relative path is a word of moves: up one level, or down into a name. Going down and up again cancels,
so every word has a reduced form, `ups` moves up and then the names below.

* `reduce` — the reduced form of a word, with a stack;
* `Reduced.word` — a reduced form as a word again; `reduce_word` says that reducing it gives it back;
* `reduce_cancel` — going down and up again may be left out anywhere.
-/

namespace Paths

variable {α : Type*}

inductive Move (α : Type*) where
  | up
  | down (name : α)
  deriving DecidableEq

structure Reduced (α : Type*) where
  ups : Nat
  names : List α
  deriving DecidableEq

def Reduced.step (p : Reduced α) : Move α → Reduced α
  | .up => if p.names.isEmpty then ⟨p.ups + 1, []⟩ else ⟨p.ups, p.names.dropLast⟩
  | .down a => ⟨p.ups, p.names ++ [a]⟩

def Reduced.steps (p : Reduced α) (w : List (Move α)) : Reduced α := w.foldl Reduced.step p

def reduce (w : List (Move α)) : Reduced α := Reduced.steps ⟨0, []⟩ w

def Reduced.word (p : Reduced α) : List (Move α) := List.replicate p.ups .up ++ p.names.map .down

theorem Reduced.steps_append (p : Reduced α) (v w : List (Move α)) :
    p.steps (v ++ w) = (p.steps v).steps w :=
  List.foldl_append

theorem Reduced.steps_ups (u k : Nat) :
    Reduced.steps (α := α) ⟨u, []⟩ (List.replicate k .up) = ⟨u + k, []⟩ := by
  induction k generalizing u with
  | zero => rfl
  | succ k ih =>
    show Reduced.steps (α := α) ⟨u + 1, []⟩ (List.replicate k .up) = _
    rw [ih, Nat.add_assoc, Nat.add_comm 1 k]

theorem Reduced.steps_downs (p : Reduced α) (names : List α) :
    p.steps (names.map .down) = ⟨p.ups, p.names ++ names⟩ := by
  induction names generalizing p with
  | nil =>
    show p = _
    rw [List.append_nil]
  | cons a names ih =>
    show Reduced.steps ⟨p.ups, p.names ++ [a]⟩ (names.map .down) = _
    rw [ih, List.append_assoc]
    rfl

theorem reduce_word (p : Reduced α) : reduce p.word = p := by
  unfold reduce Reduced.word
  rw [Reduced.steps_append, Reduced.steps_ups, Reduced.steps_downs, Nat.zero_add, List.nil_append]

theorem Reduced.step_down_up (p : Reduced α) (a : α) : (p.step (.down a)).step .up = p := by
  simp [Reduced.step]

theorem reduce_cancel (v w : List (Move α)) (a : α) :
    reduce (v ++ .down a :: .up :: w) = reduce (v ++ w) := by
  unfold reduce
  rw [Reduced.steps_append, Reduced.steps_append]
  show Reduced.steps (Reduced.step (Reduced.step _ (.down a)) .up) w = _
  rw [Reduced.step_down_up]

end Paths
