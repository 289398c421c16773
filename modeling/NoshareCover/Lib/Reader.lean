import Mathlib.Data.List.Basic

/-!
# Readers that move about in a file

A reader has the whole file and a position.  `Reader.Takes n r w a` says that `r` takes the word `w`
for the value `a` wherever it finds it, at least `n` places into the file.
-/

namespace Reader

variable {τ ε α β : Type}

/-- Readers of files of `τ`. -/
abbrev At (τ ε α : Type) := List τ → StateT ℕ (Except ε) α

def Takes (n : ℕ) (r : At τ ε α) (w : List τ) (a : α) : Prop :=
  ∀ front back, n ≤ front.length →
    (r (front ++ (w ++ back))).run front.length = .ok (a, front.length + w.length)

namespace Takes

variable {n : ℕ} {r : At τ ε α} {q : α → At τ ε β} {u v : List τ} {a : α} {b : β}

theorem mono {m : ℕ} (h : Takes n r u a) (hle : n ≤ m) : Takes m r u a :=
  fun front back hfront => h front back (Nat.le_trans hle hfront)

theorem of_eq {r' : At τ ε α} (h : Takes n r u a) (heq : ∀ file, r' file = r file) :
    Takes n r' u a := by
  intro front back hfront
  rw [heq]
  exact h front back hfront

theorem pure (n : ℕ) (a : α) : Takes (ε := ε) n (fun _ : List τ => Pure.pure a) [] a :=
  fun _ _ _ => rfl

/-- One word behind the other. -/
theorem bind (h : Takes n r u a) (hq : Takes (n + u.length) (q a) v b) :
    Takes n (fun file => r file >>= fun a => q a file) (u ++ v) b := by
  intro front back hfront
  have hfirst := h front (v ++ back) hfront
  have hsecond := hq (front ++ u) back (by rw [List.length_append]; omega)
  rw [List.append_assoc, List.length_append] at hsecond
  rw [StateT.run_bind, List.append_assoc, hfirst]
  show (q a _).run _ = _
  rw [hsecond, List.length_append, Nat.add_assoc]

/-- The first word can stand anywhere. -/
theorem bind_zero (h : Takes 0 r u a) (hq : Takes (n + u.length) (q a) v b) :
    Takes n (fun file => r file >>= fun a => q a file) (u ++ v) b :=
  (h.mono (Nat.zero_le n)).bind hq

theorem map (f : α → β) (h : Takes n r u a) : Takes n (fun file => f <$> r file) u (f a) := by
  intro front back hfront
  rw [StateT.run_map, h front back hfront]
  rfl

end Takes

/-! ### A fixed count of items -/

def readMany {m : Type → Type} [Monad m] (item : m α) : ℕ → m (List α)
  | 0 => pure []
  | n + 1 => do
    let a ← item
    let rest ← readMany item n
    return a :: rest

theorem Takes.readMany {n : ℕ} {item : At τ ε α} {encode : α → List τ} {items : List α}
    (h : ∀ a ∈ items, Takes n item (encode a) a) :
    Takes n (fun file => Reader.readMany (item file) items.length) (items.flatMap encode) items := by
  induction items generalizing n with
  | nil => exact Takes.pure n []
  | cons a items ih =>
    have hrest := ih (n := n + (encode a).length) fun b hb =>
      (h b (List.mem_cons_of_mem a hb)).mono (Nat.le_add_right _ _)
    have hcons := hrest.map (a :: ·)
    intro front back hfront
    have hboth := ((h a (List.mem_cons_self ..)).bind
      (q := fun a file => (a :: ·) <$> Reader.readMany (item file) items.length) hcons) front back hfront
    rw [List.flatMap_cons]
    exact hboth

end Reader
