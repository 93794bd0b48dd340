import Mathlib.Data.List.Nodup
import Mathlib.Tactic.TypeStar

/-!
# A closure computed with a queue

* `Worklist.collect` : visits what the queue holds and admits, once each, and queues what each visit refers to;
* `Worklist.Reaches` : what is admitted and reached from the roots through what is admitted;
* `mem_collect_iff` : a collection that is not cut short visits what is reached;
* `exists_reaches_of_truncated` : one that is cut short leaves out something that is reached.
-/

namespace Worklist
variable {α : Type*}

/-- What is admitted, and reached from the roots through what is admitted. -/
inductive Reaches (admits : α → Bool) (refs : α → List α) (roots : List α) : α → Prop
  | root {a : α} (ha : a ∈ roots) (hadmits : admits a = true) : Reaches admits refs roots a
  | step {a b : α} (ha : Reaches admits refs roots a) (hb : b ∈ refs a) (hadmits : admits b = true) :
      Reaches admits refs roots b

/-- Where two ways to refer agree on what the first reaches, the second reaches it too. -/
theorem Reaches.congr {admits : α → Bool} {refs refs' : α → List α} {roots : List α} {a : α}
    (h : Reaches admits refs roots a) (hrefs : ∀ b, Reaches admits refs roots b → refs' b = refs b) :
    Reaches admits refs' roots a := by
  induction h with
  | root ha hadmits => exact .root ha hadmits
  | step ha hb hadmits ih => exact .step ih (by rwa [hrefs _ ha]) hadmits

/-- What is reached from what is reached, is reached. -/
theorem Reaches.trans {admits : α → Bool} {refs : α → List α} {roots roots' : List α} {a : α}
    (h : Reaches admits refs roots' a) (hroots : ∀ b ∈ roots', admits b = true → Reaches admits refs roots b) :
    Reaches admits refs roots a := by
  induction h with
  | root ha hadmits => exact hroots _ ha hadmits
  | step _ hb hadmits ih => exact .step ih hb hadmits

variable [DecidableEq α]

/-- The first queued element that was not seen and is admitted, what is seen then, and the rest of the queue. -/
def next (admits : α → Bool) (seen : List α) : List α → Option (α × List α × List α)
  | [] => none
  | a :: rest =>
    if a ∈ seen then next admits seen rest
    else if admits a then some (a, a :: seen, rest)
    else next admits (a :: seen) rest

structure Collected (α : Type*) where
  visited : List α
  truncated : Bool

/-- Visit what is queued, up to a limit. -/
def collect (admits : α → Bool) (refs : α → List α) : Nat → List α → List α → Collected α
  | 0, seen, pending => ⟨[], (next admits seen pending).isSome⟩
  | limit + 1, seen, pending =>
    match next admits seen pending with
    | none => ⟨[], false⟩
    | some (a, seen', rest) =>
      let collected := collect admits refs limit seen' (rest ++ (refs a).filter (· ∉ seen'))
      ⟨a :: collected.visited, collected.truncated⟩

example (refs : Nat → List Nat) : (collect (· < 2) refs 1 [] [2, 0, 1]).visited = [0] := by
  simp [collect, next]

section Next
variable {admits : α → Bool} {seen seen' pending rest : List α} {a : α}

/-- What one look at the queue found. -/
structure Found (admits : α → Bool) (seen pending : List α) (a : α) (seen' rest : List α) : Prop where
  queued : a ∈ pending
  admitted : admits a = true
  unseen : a ∉ seen
  keeps : ∀ x ∈ seen, x ∈ seen'
  marks : a ∈ seen'
  only : ∀ x ∈ seen', x ∈ seen ∨ x = a ∨ admits x = false
  rest_queued : ∀ x ∈ rest, x ∈ pending
  covers : ∀ x ∈ pending, x ∈ seen' ∨ x ∈ rest

theorem next_some (h : next admits seen pending = some (a, seen', rest)) :
    Found admits seen pending a seen' rest := by
  induction pending generalizing seen with
  | nil => cases h
  | cons b pending ih =>
    rw [next] at h
    split_ifs at h with hseen hadmits
    · obtain ⟨hqueued, hadmitted, hunseen, hkeeps, hmarks, honly, hrest, hcovers⟩ := ih h
      refine ⟨List.mem_cons_of_mem b hqueued, hadmitted, hunseen, hkeeps, hmarks, honly,
        fun x hx => List.mem_cons_of_mem b (hrest x hx), fun x hx => ?_⟩
      rcases List.mem_cons.mp hx with rfl | hx
      · exact .inl (hkeeps x hseen)
      · exact hcovers x hx
    · cases h
      refine ⟨List.mem_cons_self, hadmits, hseen, fun x hx => List.mem_cons_of_mem _ hx, List.mem_cons_self,
        fun x hx => ?_, fun x hx => List.mem_cons_of_mem _ hx, fun x hx => ?_⟩
      · rcases List.mem_cons.mp hx with rfl | hx
        · exact .inr (.inl rfl)
        · exact .inl hx
      · rcases List.mem_cons.mp hx with rfl | hx
        · exact .inl List.mem_cons_self
        · exact .inr hx
    · obtain ⟨hqueued, hadmitted, hunseen, hkeeps, hmarks, honly, hrest, hcovers⟩ := ih h
      refine ⟨List.mem_cons_of_mem b hqueued, hadmitted, fun hmem => hunseen (List.mem_cons_of_mem b hmem),
        fun x hx => hkeeps x (List.mem_cons_of_mem b hx), hmarks, fun x hx => ?_,
        fun x hx => List.mem_cons_of_mem b (hrest x hx), fun x hx => ?_⟩
      · rcases honly x hx with hmem | hrest
        · rcases List.mem_cons.mp hmem with rfl | hmem
          · exact .inr (.inr (by simpa using hadmits))
          · exact .inl hmem
        · exact .inr hrest
      · rcases List.mem_cons.mp hx with rfl | hx
        · exact .inl (hkeeps x List.mem_cons_self)
        · exact hcovers x hx

theorem next_none (h : next admits seen pending = none) : ∀ x ∈ pending, x ∈ seen ∨ admits x = false := by
  induction pending generalizing seen with
  | nil => exact nofun
  | cons b pending ih =>
    rw [next] at h
    split_ifs at h with hseen hadmits
    · intro x hx
      rcases List.mem_cons.mp hx with rfl | hx
      · exact .inl hseen
      · exact ih h x hx
    · intro x hx
      rcases List.mem_cons.mp hx with rfl | hx
      · exact .inr (by simpa using hadmits)
      · rcases ih h x hx with hmem | hno
        · rcases List.mem_cons.mp hmem with rfl | hmem
          · exact .inr (by simpa using hadmits)
          · exact .inl hmem
        · exact .inr hno

end Next

section Collect
variable {admits : α → Bool} {refs : α → List α} {limit : Nat} {seen pending : List α}

theorem reaches_of_mem_collect {a : α} (h : a ∈ (collect admits refs limit seen pending).visited) :
    Reaches admits refs pending a := by
  induction limit generalizing seen pending with
  | zero => cases h
  | succ limit ih =>
    rw [collect] at h
    cases hnext : next admits seen pending with
    | none =>
      rw [hnext] at h
      cases h
    | some found =>
      obtain ⟨b, seen', rest⟩ := found
      have hfound := next_some hnext
      have hb : Reaches admits refs pending b := .root hfound.queued hfound.admitted
      rw [hnext] at h
      rcases List.mem_cons.mp h with rfl | h
      · exact hb
      · -- what the rest of the queue or the references of `b` reach, the queue reaches
        refine (ih h).trans fun c hc hadmits => ?_
        rcases List.mem_append.mp hc with hc | hc
        · exact .root (hfound.rest_queued c hc) hadmits
        · exact .step hb (List.mem_of_mem_filter hc) hadmits

theorem nodup_collect : (collect admits refs limit seen pending).visited.Nodup ∧
    ∀ a ∈ (collect admits refs limit seen pending).visited, a ∉ seen := by
  induction limit generalizing seen pending with
  | zero => exact ⟨List.nodup_nil, nofun⟩
  | succ limit ih =>
    rw [collect]
    cases hnext : next admits seen pending with
    | none => exact ⟨List.nodup_nil, nofun⟩
    | some found =>
      obtain ⟨b, seen', rest⟩ := found
      have hfound := next_some hnext
      obtain ⟨hnodup, hfresh⟩ := @ih seen' (rest ++ (refs b).filter (· ∉ seen'))
      refine ⟨List.nodup_cons.mpr ⟨fun hb => hfresh b hb hfound.marks, hnodup⟩, fun a ha => ?_⟩
      rcases List.mem_cons.mp ha with rfl | ha
      · exact hfound.unseen
      · exact fun hseen => hfresh a ha (hfound.keeps a hseen)

theorem length_collect_le : (collect admits refs limit seen pending).visited.length ≤ limit := by
  induction limit generalizing seen pending with
  | zero => exact Nat.zero_le 0
  | succ limit ih =>
    rw [collect]
    cases next admits seen pending with
    | none => exact Nat.zero_le _
    | some found => exact Nat.succ_le_succ ih

/-- A collection that is not cut short visits what it queued, and is closed under what it refers to. -/
theorem closed_collect (h : (collect admits refs limit seen pending).truncated = false) :
    (∀ a ∈ pending, admits a = true → a ∈ seen ∨ a ∈ (collect admits refs limit seen pending).visited) ∧
      ∀ a ∈ (collect admits refs limit seen pending).visited, ∀ b ∈ refs a, admits b = true →
        b ∈ seen ∨ b ∈ (collect admits refs limit seen pending).visited := by
  induction limit generalizing seen pending with
  | zero =>
    have hnone : next admits seen pending = none := by simpa [collect] using h
    refine ⟨fun a ha hadmits => ?_, nofun⟩
    rcases next_none hnone a ha with hseen | hno
    · exact .inl hseen
    · rw [hadmits] at hno
      cases hno
  | succ limit ih =>
    rw [collect] at h ⊢
    cases hnext : next admits seen pending with
    | none =>
      refine ⟨fun a ha hadmits => ?_, nofun⟩
      rcases next_none hnext a ha with hseen | hno
      · exact .inl hseen
      · rw [hadmits] at hno
        cases hno
    | some found =>
      obtain ⟨b, seen', rest⟩ := found
      have hfound := next_some hnext
      rw [hnext] at h
      obtain ⟨hqueue, hclosed⟩ := ih h
      -- what is marked as seen was seen, is visited now, or is not admitted
      have hback : ∀ x, admits x = true →
          (x ∈ seen' ∨ x ∈ (collect admits refs limit seen' (rest ++ (refs b).filter (· ∉ seen'))).visited) →
            x ∈ seen ∨ x ∈ b :: (collect admits refs limit seen' (rest ++ (refs b).filter (· ∉ seen'))).visited := by
        rintro x hadmits (hx | hx)
        · rcases hfound.only x hx with hseen | rfl | hno
          · exact .inl hseen
          · exact .inr List.mem_cons_self
          · rw [hadmits] at hno
            cases hno
        · exact .inr (List.mem_cons_of_mem b hx)
      refine ⟨fun a ha hadmits => hback a hadmits ?_, fun a ha c hc hadmits => hback c hadmits ?_⟩
      · rcases hfound.covers a ha with hseen | hrest
        · exact .inl hseen
        · exact hqueue a (List.mem_append_left _ hrest) hadmits
      · rcases List.mem_cons.mp ha with rfl | ha
        · by_cases hseen : c ∈ seen'
          · exact .inl hseen
          · refine hqueue c (List.mem_append_right _ (List.mem_filter.mpr ⟨hc, ?_⟩)) hadmits
            simpa using hseen
        · exact hclosed a ha c hc hadmits

/-- **A collection that is not cut short visits what is reached.** -/
theorem mem_collect_iff (h : (collect admits refs limit [] pending).truncated = false) {a : α} :
    a ∈ (collect admits refs limit [] pending).visited ↔ Reaches admits refs pending a := by
  obtain ⟨hqueue, hclosed⟩ := closed_collect h
  refine ⟨reaches_of_mem_collect, fun hreaches => ?_⟩
  induction hreaches with
  | root ha hadmits => exact (hqueue _ ha hadmits).resolve_left List.not_mem_nil
  | step _ hb hadmits ih => exact (hclosed _ ih _ hb hadmits).resolve_left List.not_mem_nil

/-- A collection that is cut short visited as much as it may, and something more is reached. -/
theorem exists_reaches_of_truncated (h : (collect admits refs limit seen pending).truncated = true) :
    (collect admits refs limit seen pending).visited.length = limit ∧
      ∃ a, Reaches admits refs pending a ∧ a ∉ seen ∧ a ∉ (collect admits refs limit seen pending).visited := by
  induction limit generalizing seen pending with
  | zero =>
    obtain ⟨⟨a, seen', rest⟩, hnext⟩ := Option.isSome_iff_exists.mp (show (next admits seen pending).isSome = true from h)
    have hfound := next_some hnext
    exact ⟨rfl, a, .root hfound.queued hfound.admitted, hfound.unseen, List.not_mem_nil⟩
  | succ limit ih =>
    rw [collect] at h ⊢
    cases hnext : next admits seen pending with
    | none =>
      rw [hnext] at h
      cases h
    | some found =>
      obtain ⟨b, seen', rest⟩ := found
      have hfound := next_some hnext
      rw [hnext] at h
      obtain ⟨hlength, a, ha, hunseen, hnot⟩ := ih h
      have hb : Reaches admits refs pending b := .root hfound.queued hfound.admitted
      have hpending : Reaches admits refs pending a := by
        refine ha.trans fun c hc hadmits => ?_
        rcases List.mem_append.mp hc with hc | hc
        · exact .root (hfound.rest_queued c hc) hadmits
        · exact .step hb (List.mem_of_mem_filter hc) hadmits
      refine ⟨congrArg Nat.succ hlength, a, hpending, fun hseen => hunseen (hfound.keeps a hseen), ?_⟩
      rintro hmem
      rcases List.mem_cons.mp hmem with rfl | hmem
      · exact hunseen hfound.marks
      · exact hnot hmem

end Collect

end Worklist
