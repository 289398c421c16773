import Mathlib.Data.List.Basic

/-!
# Loops whose body can fail

A loop over a list fails when its body fails on an item.  Where that does not depend on the rounds
before, the loop succeeds just if the body does on every item (`Loop.foldlM_eq_some_iff`), and
a loop that succeeds keeps what each round keeps (`Loop.foldlM_keeps`).
-/

namespace Loop

variable {σ α : Type*}

/-- On every state that has `I`, the body fails on the items that are not `ok`, and does `put` on the
others. -/
theorem foldlM_eq_some_iff {body : σ → α → Option σ} (put : σ → α → σ) (I : σ → Prop)
    (ok : α → Prop) {items : List α} (hput : ∀ s, ∀ a ∈ items, I s → I (put s a))
    (hok : ∀ s, ∀ a ∈ items, I s → ok a → body s a = some (put s a))
    (hfail : ∀ s, ∀ a ∈ items, I s → ¬ ok a → body s a = none) {s : σ} (h0 : I s) (r : σ) :
    items.foldlM body s = some r ↔ (∀ a ∈ items, ok a) ∧ items.foldl put s = r := by
  induction items generalizing s with
  | nil => simp
  | cons a items ih =>
    have hmem : ∀ b ∈ items, b ∈ a :: items := fun b hb => List.mem_cons_of_mem a hb
    have hfirst : a ∈ a :: items := List.mem_cons_self ..
    rw [List.foldlM_cons, List.forall_mem_cons, List.foldl_cons]
    -- the first element decides whether the rest is tried
    by_cases ha : ok a
    · have hrest := ih (fun s b hb => hput s b (hmem b hb)) (fun s b hb => hok s b (hmem b hb))
        (fun s b hb => hfail s b (hmem b hb)) (hput s a hfirst h0)
      rw [hok s a hfirst h0 ha, Option.bind_eq_bind, Option.bind_some, hrest, and_iff_right ha]
    · rw [hfail s a hfirst h0 ha]
      exact iff_of_false nofun fun h => ha h.1.1

/-- A body that does not fail. -/
theorem foldlM_eq_some {body : σ → α → Option σ} (put : σ → α → σ) (I : σ → Prop) {items : List α}
    (hput : ∀ s, ∀ a ∈ items, I s → I (put s a))
    (hbody : ∀ s, ∀ a ∈ items, I s → body s a = some (put s a)) {s : σ} (h0 : I s) :
    items.foldlM body s = some (items.foldl put s) :=
  (foldlM_eq_some_iff put I (fun _ => True) hput (fun s a ha hs _ => hbody s a ha hs)
    (fun _ _ _ _ hfalse => absurd trivial hfalse) h0 _).2 ⟨fun _ _ => trivial, rfl⟩

/-- A body that does on representations what `step` does on the values. -/
theorem foldlM_encode {τ : Type*} {body : σ → α → Option σ} {step : τ → α → τ} (encode : τ → σ)
    (I : τ → Prop) {items : List α} (hstep : ∀ t, ∀ a ∈ items, I t → I (step t a))
    (hbody : ∀ t, ∀ a ∈ items, I t → body (encode t) a = some (encode (step t a))) {t : τ} (h0 : I t) :
    items.foldlM body (encode t) = some (encode (items.foldl step t)) := by
  induction items generalizing t with
  | nil => rfl
  | cons a items ih =>
    have hfirst : a ∈ a :: items := List.mem_cons_self ..
    have hmem : ∀ b ∈ items, b ∈ a :: items := fun b hb => List.mem_cons_of_mem a hb
    rw [List.foldlM_cons, hbody t a hfirst h0, Option.bind_eq_bind, Option.bind_some,
      List.foldl_cons]
    exact ih (fun t b hb => hstep t b (hmem b hb)) (fun t b hb => hbody t b (hmem b hb))
      (hstep t a hfirst h0)

/-- What every round keeps, a loop over a list keeps. -/
theorem foldlM_keeps {α β ε : Type*} {f : β → α → Except ε β} {I : β → Prop}
    (hround : ∀ b a b', I b → f b a = .ok b' → I b') {as : List α} {b b' : β} (hb : I b)
    (h : as.foldlM f b = .ok b') : I b' := by
  induction as generalizing b with
  | nil =>
    obtain rfl := Except.ok.inj h
    exact hb
  | cons a as ih =>
    -- the first round is fine, or there is no result
    rw [List.foldlM_cons] at h
    cases ha : f b a with
    | error e =>
      rw [ha] at h
      cases h
    | ok c =>
      rw [ha] at h
      exact ih (hround b a c hb ha) h

end Loop
