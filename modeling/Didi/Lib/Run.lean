import Mathlib.Tactic.TypeStar
import Mathlib.Data.List.Basic

/-!
# Runs of a machine that answers each input

`step : σ → ι → ο × σ` answers an input and moves to the next state.

* `Run.exec`, `Run.answers` : the state and the answers a list of inputs leads to;
* `Run.Along C s is` : every input of the run meets `C` in the state it is read in;
* `Run.exec_of_along` : what each step that meets `C` preserves, the whole run preserves.
-/

namespace Run
variable {σ ι ο τ : Type*} (step : σ → ι → ο × σ)

/-- The state the inputs lead to. -/
def exec (s : σ) : List ι → σ
  | [] => s
  | i :: is => exec (step s i).2 is

/-- What the machine answers, input by input. -/
def answers (s : σ) : List ι → List ο
  | [] => []
  | i :: is => (step s i).1 :: answers (step s i).2 is

/-- Every input meets `C` in the state it is read in. -/
def Along (C : σ → ι → Prop) (s : σ) : List ι → Prop
  | [] => True
  | i :: is => C s i ∧ Along C (step s i).2 is

variable {step}

instance Along.decidable {C : σ → ι → Prop} [h : ∀ s i, Decidable (C s i)] :
    (s : σ) → (is : List ι) → Decidable (Along step C s is)
  | _, [] => isTrue trivial
  | s, i :: is => @instDecidableAnd _ _ (h s i) (Along.decidable (step s i).2 is)

@[simp] theorem exec_nil (s : σ) : exec step s [] = s := rfl

@[simp] theorem exec_cons (s : σ) (i : ι) (is : List ι) :
    exec step s (i :: is) = exec step (step s i).2 is := rfl

theorem along_nil (C : σ → ι → Prop) (s : σ) : Along step C s [] := trivial

theorem along_cons {C : σ → ι → Prop} {s : σ} {i : ι} {is : List ι} (h : C s i)
    (hs : Along step C (step s i).2 is) : Along step C s (i :: is) := ⟨h, hs⟩

theorem exec_append (s : σ) (is js : List ι) :
    exec step s (is ++ js) = exec step (exec step s is) js := by
  induction is generalizing s with
  | nil => rfl
  | cons i is ih => exact ih _

theorem answers_append (s : σ) (is js : List ι) :
    answers step s (is ++ js) = answers step s is ++ answers step (exec step s is) js := by
  induction is generalizing s with
  | nil => rfl
  | cons i is ih => exact congrArg ((step s i).1 :: ·) (ih _)

theorem along_append {C : σ → ι → Prop} {s : σ} {is js : List ι} :
    Along step C s (is ++ js) ↔ Along step C s is ∧ Along step C (exec step s is) js := by
  induction is generalizing s with
  | nil => simp [Along]
  | cons i is ih => simp [Along, ih, and_assoc]

theorem Along.mono_mem {C D : σ → ι → Prop} {s : σ} {is : List ι} (h : Along step C s is)
    (hCD : ∀ s, ∀ i ∈ is, C s i → D s i) : Along step D s is := by
  induction is generalizing s with
  | nil => trivial
  | cons i is ih =>
    exact ⟨hCD s i List.mem_cons_self h.1, ih h.2 fun s j hj => hCD s j (List.mem_cons_of_mem i hj)⟩

theorem Along.and {C D : σ → ι → Prop} {s : σ} {is : List ι} (hC : Along step C s is)
    (hD : Along step D s is) : Along step (fun s i => D s i ∧ C s i) s is := by
  induction is generalizing s with
  | nil => trivial
  | cons i is ih => exact ⟨⟨hD.1, hC.1⟩, ih hC.2 hD.2⟩

theorem along_of_forall {C : ι → Prop} {s : σ} {is : List ι} (h : ∀ i ∈ is, C i) :
    Along step (fun _ => C) s is := by
  induction is generalizing s with
  | nil => trivial
  | cons i is ih => exact ⟨h i List.mem_cons_self, ih fun j hj => h j (List.mem_cons_of_mem _ hj)⟩

/-- What each step that meets `C` preserves, the whole run preserves. -/
theorem exec_of_along {C : σ → ι → Prop} {P : σ → Prop}
    (hstep : ∀ s i, C s i → P s → P (step s i).2) {s : σ} {is : List ι} (hC : Along step C s is)
    (hs : P s) : P (exec step s is) := by
  induction is generalizing s with
  | nil => exact hs
  | cons i is ih => exact ih hC.2 (hstep s i hC.1 hs)

theorem exec_of_step {P : σ → Prop} (hstep : ∀ s i, P s → P (step s i).2) {s : σ} (is : List ι)
    (hs : P s) : P (exec step s is) :=
  exec_of_along (C := fun _ _ => True) (fun s i _ h => hstep s i h)
    (along_of_forall fun _ _ => trivial) hs

end Run
