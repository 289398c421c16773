import Mathlib.Data.List.Infix

/-!
# Readers and the words they take

A reader is a partial step on a state of which `rest` is still to be read.  `Grammar.Reads rest p G`
says that `p` takes a word off the front of `rest` exactly when `G` allows the word for the value it
returns.  A reader that takes exactly the encodings of some objects undoes the encoding, whatever
follows it, and fails on every part of one (`Grammar.Undoes.of_reads`).
-/

namespace Grammar

variable {σ τ α β γ : Type}

structure Reads (rest : σ → List τ) (p : StateT σ Option α) (G : α → List τ → Prop) : Prop where
  sound : ∀ {s x s'}, p.run s = some (x, s') → ∃ w, G x w ∧ rest s = w ++ rest s'
  complete : ∀ {s x w t}, G x w → rest s = w ++ t → ∃ s', p.run s = some (x, s') ∧ rest s' = t

variable {rest : σ → List τ} {p : StateT σ Option α} {G H : α → List τ → Prop}

namespace Reads

theorem congr (hp : Reads rest p G) (h : ∀ x w, G x w ↔ H x w) : Reads rest p H where
  sound hrun := by
    obtain ⟨w, hw, hrest⟩ := hp.sound hrun
    exact ⟨w, (h _ w).1 hw, hrest⟩
  complete hw := hp.complete ((h _ _).2 hw)

theorem pure (x : α) : Reads rest (Pure.pure x) fun y w => y = x ∧ w = [] where
  sound hrun := by
    cases hrun
    exact ⟨[], ⟨rfl, rfl⟩, rfl⟩
  complete := by
    rintro s _ _ t ⟨rfl, rfl⟩ hrest
    exact ⟨s, rfl, hrest⟩

theorem failure : Reads rest (failure : StateT σ Option α) fun _ _ => False where
  sound hrun := by cases hrun
  complete hw := hw.elim

theorem ite {c : Prop} [Decidable c] {q : StateT σ Option α} (hp : Reads rest p G)
    (hq : Reads rest q H) :
    Reads rest (if c then p else q) fun x w => if c then G x w else H x w := by
  split_ifs
  · exact hp
  · exact hq

theorem bind {q : α → StateT σ Option β} {K : α → β → List τ → Prop} (hp : Reads rest p G)
    (hq : ∀ x, Reads rest (q x) (K x)) :
    Reads rest (p >>= q) fun y w => ∃ x u v, G x u ∧ K x y v ∧ w = u ++ v where
  sound := by
    intro s y s' hrun
    -- what was read is read by the first parser, then by the second
    rw [StateT.run_bind] at hrun
    obtain ⟨⟨x, s₁⟩, hx, hy⟩ := Option.bind_eq_some_iff.1 hrun
    obtain ⟨u, hu, hrest⟩ := hp.sound hx
    obtain ⟨v, hv, hrest'⟩ := (hq x).sound hy
    refine ⟨u ++ v, ⟨x, u, v, hu, hv, rfl⟩, ?_⟩
    rw [hrest, hrest', List.append_assoc]
  complete := by
    rintro s y _ t ⟨x, u, v, hu, hv, rfl⟩ hrest
    rw [List.append_assoc] at hrest
    obtain ⟨s₁, hx, hrest₁⟩ := hp.complete hu hrest
    obtain ⟨s₂, hy, hrest₂⟩ := (hq x).complete hv hrest₁
    refine ⟨s₂, ?_, hrest₂⟩
    rw [StateT.run_bind, hx]
    exact hy

/-- What a reader takes does not depend on what follows. -/
theorem rest_eq (hp : Reads rest p G) {s : σ} {x y : α} {u v t t' : List τ} (hu : G x u)
    (hv : G y v) (hrest : rest s = u ++ t) (hrest' : rest s = v ++ t') : x = y ∧ t = t' := by
  obtain ⟨s₁, hrun, rfl⟩ := hp.complete hu hrest
  obtain ⟨s₂, hrun', rfl⟩ := hp.complete hv hrest'
  rw [hrun] at hrun'
  cases hrun'
  exact ⟨rfl, rfl⟩

end Reads

/-! ### Loops -/

/-- `n` rounds of a loop that keeps a value. -/
def times (body : β → StateT σ Option β) : ℕ → β → StateT σ Option β
  | 0, acc => pure acc
  | n + 1, acc => body acc >>= times body n

/-- Every round takes the encoding of one object, and adds the object to what is kept. -/
theorem Reads.times {body : β → StateT σ Option β} {push : β → α → β} {encode : α → List τ}
    (hbody : ∀ acc, Reads rest (body acc) fun acc' w => ∃ x, acc' = push acc x ∧ w = encode x)
    (n : ℕ) (acc : β) :
    Reads rest (times body n acc) fun acc' w => ∃ xs : List α, xs.length = n
      ∧ acc' = xs.foldl push acc ∧ w = xs.flatMap encode := by
  induction n generalizing acc with
  -- the empty word, or one element and the rest
  | zero =>
    refine (Reads.pure acc).congr fun acc' w => ⟨?_, ?_⟩
    · rintro ⟨rfl, rfl⟩
      exact ⟨[], rfl, rfl, rfl⟩
    · rintro ⟨xs, hlen, rfl, rfl⟩
      rw [List.length_eq_zero_iff.1 hlen]
      exact ⟨rfl, rfl⟩
  | succ n ih =>
    refine ((hbody acc).bind fun acc₁ => ih acc₁).congr fun acc' w => ⟨?_, ?_⟩
    · rintro ⟨_, _, _, ⟨x, rfl, rfl⟩, ⟨xs, hlen, rfl, rfl⟩, rfl⟩
      exact ⟨x :: xs, congrArg (· + 1) hlen, rfl, rfl⟩
    · rintro ⟨xs, hlen, rfl, rfl⟩
      obtain ⟨x, ys, rfl⟩ := List.exists_cons_of_length_eq_add_one hlen
      exact ⟨push acc x, encode x, ys.flatMap encode, ⟨x, rfl, rfl⟩,
        ⟨ys, Nat.succ.inj hlen, rfl, rfl⟩, rfl⟩

/-! ### Encodings -/

/-- `parse` undoes `encode`: it gives the value of what was encoded, whatever follows; it accepts
nothing but encodings; and it fails on every part of one. -/
structure Undoes (parse : List τ → Option β) (encode : α → List τ) (value : α → Option β) :
    Prop where
  parse_encode : ∀ a t, parse (encode a ++ t) = value a
  eq_encode : ∀ {raw b}, parse raw = some b → ∃ a t, raw = encode a ++ t ∧ value a = some b
  parse_prefix : ∀ a v, v <+: encode a → v ≠ encode a → parse v = none

/-- What is no encoding, whatever follows, is rejected. -/
theorem Undoes.eq_none {parse : List τ → Option β} {encode : α → List τ} {value : α → Option β}
    (h : Undoes parse encode value) {raw : List τ} (hraw : ∀ a t, raw ≠ encode a ++ t) :
    parse raw = none := by
  refine Option.eq_none_iff_forall_ne_some.2 fun b hparse => ?_
  obtain ⟨a, t, heq, -⟩ := h.eq_encode hparse
  exact hraw a t heq

/-- A reader that takes exactly the encodings. -/
theorem Undoes.of_reads {p : StateT σ Option γ} {start : List τ → σ} {encode : α → List τ}
    {read : α → γ} (finish : γ → Option β) (hstart : ∀ raw, rest (start raw) = raw)
    (hp : Reads rest p fun x w => ∃ a, x = read a ∧ w = encode a) :
    Undoes (fun raw => (p.run (start raw)).bind fun q => finish q.1) encode
      fun a => finish (read a) where
  parse_encode a t := by
    obtain ⟨s, hrun, -⟩ := hp.complete ⟨a, rfl, rfl⟩ (hstart (encode a ++ t))
    rw [hrun]
    rfl
  eq_encode := by
    intro raw b hparse
    obtain ⟨⟨x, s⟩, hrun, hfinish⟩ := Option.bind_eq_some_iff.1 hparse
    obtain ⟨_, ⟨a, rfl, rfl⟩, hrest⟩ := hp.sound hrun
    rw [hstart] at hrest
    exact ⟨a, rest s, hrest, hfinish⟩
  parse_prefix := by
    intro a v hv hne
    refine Option.bind_eq_none_iff.2 fun ⟨x, s⟩ hrun => ?_
    obtain ⟨t, ht⟩ := hv
    obtain ⟨w, hw, hrest⟩ := hp.sound hrun
    rw [hstart] at hrest
    -- the reader takes the same word when the rest of the encoding follows
    have hwhole : rest (start (encode a)) = w ++ (rest s ++ t) := by
      rw [hstart, ← ht, hrest, List.append_assoc]
    have hend : rest (start (encode a)) = encode a ++ [] := by rw [hstart, List.append_nil]
    obtain ⟨-, hnil⟩ := hp.rest_eq hw ⟨a, rfl, rfl⟩ hwhole hend
    refine absurd ?_ hne
    rw [← ht, (List.append_eq_nil_iff.1 hnil).2, List.append_nil]

end Grammar
