import Mathlib.Tactic.TypeStar
import Mathlib.Tactic.SplitIfs

/-!
# Calls on a shared state that may fail

`Locked σ ε α` is a call that runs alone on a state `σ`, answers an `α` or fails with an `ε`, and
leaves a state either way: what a call stored before it failed stays stored.

* `Locked.ofExcept`, `Locked.fetch`, `Locked.store`, `Locked.fail`, `Locked.require` : the
  primitive calls;
* `Locked.wp m Q s` : the call `m`, run on `s`, ends with a result and a state that satisfy `Q`;
  one rule for each primitive and for sequencing (`wp_bind`), and `wp_mono`;
* `Except.bind_eq_ok` and its kin : when a computation that may fail succeeds.
-/

namespace Except
variable {ε ε' α β : Type}

theorem bind_eq_ok {x : Except ε α} {f : α → Except ε β} {b : β} :
    (x >>= f) = .ok b ↔ ∃ a, x = .ok a ∧ f a = .ok b := by
  constructor
  · intro h
    cases x with
    | error e => cases h
    | ok a => exact ⟨a, rfl, h⟩
  · rintro ⟨a, rfl, h⟩
    exact h

theorem map_eq_ok {x : Except ε α} {f : α → β} {b : β} :
    x.map f = .ok b ↔ ∃ a, x = .ok a ∧ f a = b := by
  constructor
  · intro h
    cases x with
    | error e => cases h
    | ok a => exact ⟨a, rfl, Except.ok.inj h⟩
  · rintro ⟨a, rfl, rfl⟩
    rfl

theorem mapError_eq_ok {x : Except ε α} {f : ε → ε'} {a : α} : x.mapError f = .ok a ↔ x = .ok a := by
  constructor
  · intro h
    cases x with
    | error e => cases h
    | ok b => exact congrArg Except.ok (Except.ok.inj h)
  · rintro rfl
    rfl

theorem toOption_eq_some {x : Except ε α} {a : α} : x.toOption = some a ↔ x = .ok a := by
  cases x with
  | error e => simp [Except.toOption]
  | ok b => simp [Except.toOption]

/-- A traversal that succeeds at every element. -/
theorem mapM_eq_ok_map {f : α → Except ε β} {g : α → β} {l : List α} (h : ∀ a ∈ l, f a = .ok (g a)) :
    l.mapM f = .ok (l.map g) := by
  induction l with
  | nil => rfl
  | cons a l ih =>
    rw [List.mapM_cons, h a List.mem_cons_self, ih fun b hb => h b (List.mem_cons_of_mem a hb)]
    rfl

theorem of_forM_eq_ok {f : α → Except ε Unit} {l : List α} (h : l.forM f = .ok ()) : ∀ a ∈ l, f a = .ok () := by
  induction l with
  | nil => exact List.forall_mem_nil _
  | cons a l ih =>
    have h : (f a >>= fun _ => l.forM f) = .ok () := h
    obtain ⟨u, ha, hl⟩ := bind_eq_ok.mp h
    intro b hb
    rcases List.mem_cons.mp hb with rfl | hb
    · exact ha
    · exact ih hl b hb

/-- Fail with `e` unless `c` holds. -/
def require (c : Prop) [Decidable c] (e : ε) : Except ε Unit := if c then .ok () else .error e

theorem require_eq_ok {c : Prop} [Decidable c] {e : ε} {u : Unit} : require c e = .ok u ↔ c := by
  unfold require
  split_ifs with h <;> simp [h]

theorem require_bind {c : Prop} [Decidable c] {e : ε} {f : Unit → Except ε β} :
    (require c e >>= f) = if c then f () else .error e := by
  unfold require
  split_ifs <;> rfl

end Except

/-- A call on the state `σ` that answers an `α` or fails with an `ε`. -/
def Locked (σ ε α : Type) : Type := σ → Except ε α × σ

namespace Locked
variable {σ ε α β : Type}

instance : Monad (Locked σ ε) where
  pure a := fun s => (.ok a, s)
  bind m f := fun s =>
    match m s with
    | (.ok a, s') => f a s'
    | (.error e, s') => (.error e, s')

/-- The outcome and the state after the call. -/
def run (m : Locked σ ε α) (s : σ) : Except ε α × σ := m s

def fail (e : ε) : Locked σ ε α := fun s => (.error e, s)

def ofExcept (r : Except ε α) : Locked σ ε α := fun s => (r, s)

def fetch : Locked σ ε σ := fun s => (.ok s, s)

def store (s : σ) : Locked σ ε Unit := fun _ => (.ok (), s)

/-- Fail with `e` unless `c` holds. -/
def require (c : Prop) [Decidable c] (e : ε) : Locked σ ε Unit :=
  fun s => if c then (.ok (), s) else (.error e, s)

theorem run_bind (m : Locked σ ε α) (f : α → Locked σ ε β) (s : σ) :
    (m >>= f).run s = match m.run s with
      | (.ok a, s') => (f a).run s'
      | (.error e, s') => (.error e, s') := rfl

theorem run_require_bind (c : Prop) [Decidable c] (e : ε) (f : Unit → Locked σ ε β) (s : σ) :
    (require c e >>= f).run s = if c then (f ()).run s else (.error e, s) := by
  rw [run_bind]
  by_cases hc : c <;> simp [run, require, hc]

/-- The call ends with a result and a state that satisfy `Q`. -/
def wp (m : Locked σ ε α) (Q : Except ε α → σ → Prop) (s : σ) : Prop := Q (m.run s).1 (m.run s).2

variable {Q R : Except ε α → σ → Prop} {s : σ}

theorem wp_mono {m : Locked σ ε α} (h : m.wp Q s) (hQR : ∀ r s', Q r s' → R r s') : m.wp R s :=
  hQR _ _ h

theorem wp_pure {a : α} (h : Q (.ok a) s) : (pure a : Locked σ ε α).wp Q s := h

theorem wp_ofExcept {r : Except ε α} (h : Q r s) : (ofExcept r).wp Q s := h

/-- Sequencing: the second call starts where the first ended, unless the first failed. -/
theorem wp_bind {m : Locked σ ε α} {f : α → Locked σ ε β} {P : Except ε β → σ → Prop}
    (h : m.wp (fun r s' => match r with
      | .ok a => (f a).wp P s'
      | .error e => P (.error e) s') s) : (m >>= f).wp P s := by
  unfold wp at h ⊢
  rw [run_bind]
  generalize m.run s = outcome at h ⊢
  obtain ⟨r, s'⟩ := outcome
  cases r with
  | ok a => exact h
  | error e => exact h

theorem wp_ofExcept_bind {r : Except ε α} {f : α → Locked σ ε β} {P : Except ε β → σ → Prop}
    (hok : ∀ a, r = .ok a → (f a).wp P s) (herr : ∀ e, r = .error e → P (.error e) s) :
    (ofExcept r >>= f).wp P s := by
  refine wp_bind ?_
  cases r with
  | ok a => exact hok a rfl
  | error e => exact herr e rfl

theorem wp_require_bind {c : Prop} [Decidable c] {e : ε} {f : Unit → Locked σ ε β}
    {P : Except ε β → σ → Prop} (hpos : c → (f ()).wp P s) (hneg : ¬ c → P (.error e) s) :
    (require c e >>= f).wp P s := by
  refine wp_bind ?_
  by_cases hc : c
  · simpa [wp, run, require, hc] using hpos hc
  · simpa [wp, run, require, hc] using hneg hc

theorem wp_fetch_bind {f : σ → Locked σ ε β} {P : Except ε β → σ → Prop} (h : (f s).wp P s) :
    (fetch >>= f).wp P s := wp_bind h

/-- A first call whose outcome is known. -/
theorem wp_run_bind {m : Locked σ ε α} {f : α → Locked σ ε β} {P : Except ε β → σ → Prop} {a : α} {s' : σ}
    (hm : m.run s = (.ok a, s')) (h : (f a).wp P s') : (m >>= f).wp P s := by
  refine wp_bind ?_
  unfold wp
  rw [hm]
  exact h

theorem wp_run_bind_error {m : Locked σ ε α} {f : α → Locked σ ε β} {P : Except ε β → σ → Prop} {e : ε} {s' : σ}
    (hm : m.run s = (.error e, s')) (h : P (.error e) s') : (m >>= f).wp P s := by
  refine wp_bind ?_
  unfold wp
  rw [hm]
  exact h

theorem wp_ite_bind {c : Prop} [Decidable c] {m m' : Locked σ ε α} {f : α → Locked σ ε β}
    {P : Except ε β → σ → Prop} (hpos : c → (m >>= f).wp P s) (hneg : ¬ c → (m' >>= f).wp P s) :
    ((if c then m else m') >>= f).wp P s := by
  split
  · exact hpos ‹_›
  · exact hneg ‹_›

theorem wp_ite {c : Prop} [Decidable c] {m m' : Locked σ ε α} (hpos : c → m.wp Q s)
    (hneg : ¬ c → m'.wp Q s) : (if c then m else m').wp Q s := by
  split
  · exact hpos ‹_›
  · exact hneg ‹_›

end Locked
