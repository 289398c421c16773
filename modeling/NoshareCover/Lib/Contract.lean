import Mathlib.Data.List.Basic

/-!
# Programs that call an interface

`Calls κ α` is what a program returns, with the calls that it has made.  A contract of the interface
is a machine that takes a call or does not.  `Calls.Triple t P x Q` says that the contract `t` takes
all calls of `x` where `P` holds, and that `Q` holds behind them; its rules follow the program.
`Calls.Throwing.Safe` is the same for programs with a state that can throw.
-/

/-- A program that has returned `value` and made these calls. -/
structure Calls (κ α : Type) where
  made : List κ
  value : α

namespace Calls

variable {κ σ α β : Type}

/-- A program that makes no calls. -/
protected def pure (a : α) : Calls κ α := { made := [], value := a }

protected def bind (x : Calls κ α) (f : α → Calls κ β) : Calls κ β :=
  { made := x.made ++ (f x.value).made, value := (f x.value).value }

instance : Monad (Calls κ) where
  pure := Calls.pure
  bind := Calls.bind

def call (c : κ) : Calls κ Unit := { made := [c], value := () }

@[simp] theorem made_pure (a : α) : (pure a : Calls κ α).made = [] := rfl

@[simp] theorem value_pure (a : α) : (pure a : Calls κ α).value = a := rfl

@[simp] theorem made_bind (x : Calls κ α) (f : α → Calls κ β) :
    (x >>= f).made = x.made ++ (f x.value).made := rfl

@[simp] theorem value_bind (x : Calls κ α) (f : α → Calls κ β) :
    (x >>= f).value = (f x.value).value := rfl

@[simp] theorem made_call (c : κ) : (call c).made = [c] := rfl

/-- The state of the interface after a call, if it takes the call. -/
abbrev Contract (σ κ : Type) := σ → κ → Option σ

/-- The state after these calls, if all of them are taken. -/
def Contract.take (t : Contract σ κ) : σ → List κ → Option σ
  | s, [] => some s
  | s, c :: cs => (t s c).bind fun s => take t s cs

theorem Contract.take_append (t : Contract σ κ) (s : σ) (cs ds : List κ) :
    t.take s (cs ++ ds) = (t.take s cs).bind fun s => t.take s ds := by
  induction cs generalizing s with
  | nil => rfl
  | cons c cs ih =>
    rw [List.cons_append, take, take]
    cases t s c with
    | none => rfl
    | some s' => exact ih s'

/-- Where `P` holds, all calls of `x` are taken, and `Q` holds behind them. -/
def Triple (t : Contract σ κ) (P : σ → Prop) (x : Calls κ α) (Q : α → σ → Prop) : Prop :=
  ∀ s, P s → ∃ s', t.take s x.made = some s' ∧ Q x.value s'

namespace Triple

variable {t : Contract σ κ} {P : σ → Prop} {Q R : α → σ → Prop}

theorem pure {a : α} (h : ∀ s, P s → Q a s) : Triple t P (pure a) Q :=
  fun s hs => ⟨s, rfl, h s hs⟩

theorem call {c : κ} {Q : Unit → σ → Prop} (h : ∀ s, P s → ∃ s', t s c = some s' ∧ Q () s') :
    Triple t P (call c) Q := by
  intro s hs
  obtain ⟨s', htake, hs'⟩ := h s hs
  refine ⟨s', ?_, hs'⟩
  rw [made_call, Contract.take, htake]
  rfl

theorem bind {x : Calls κ α} {f : α → Calls κ β} {Q : β → σ → Prop} (hx : Triple t P x R)
    (hf : ∀ a, Triple t (R a) (f a) Q) : Triple t P (x >>= f) Q := by
  intro s hs
  obtain ⟨s₁, hx, hs₁⟩ := hx s hs
  obtain ⟨s₂, hf, hs₂⟩ := hf x.value s₁ hs₁
  refine ⟨s₂, ?_, hs₂⟩
  rw [made_bind, Contract.take_append, hx, Option.bind_some, hf]

theorem mono {P' : σ → Prop} {x : Calls κ α} (h : Triple t P x Q) (hP : ∀ s, P' s → P s)
    (hQ : ∀ a s, Q a s → R a s) : Triple t P' x R := by
  intro s hs
  obtain ⟨s', htake, hs'⟩ := h s (hP s hs)
  exact ⟨s', htake, hQ _ _ hs'⟩

/-- What is known before without a look at the state. -/
theorem known {φ : Prop} {x : Calls κ α} (h : φ → Triple t P x Q) :
    Triple t (fun s => φ ∧ P s) x Q :=
  fun s hs => h hs.1 s hs.2

/-- A program that goes through a list keeps what one round keeps. -/
theorem foldlM {f : β → α → Calls κ β} {I : β → σ → Prop} {as : List α}
    (h : ∀ b, ∀ a ∈ as, Triple t (I b) (f b a) I) (b : β) : Triple t (I b) (as.foldlM f b) I := by
  induction as generalizing b with
  | nil => exact pure fun _ hs => hs
  | cons a as ih =>
    rw [List.foldlM_cons]
    exact (h b a (List.mem_cons_self ..)).bind fun b' =>
      ih (fun b a' ha' => h b a' (List.mem_cons_of_mem a ha')) b'

end Triple

/-! ### Programs with a state that can throw -/

/-- A program with a state `π`, which it also has when it throws an `ε`. -/
abbrev Throwing (κ π ε α : Type) := ExceptT ε (StateT π (Calls κ)) α

namespace Throwing

variable {π ε : Type} {t : Contract σ κ}

/-- A call, with what it changes of the state. -/
def call (c : κ) (f : π → π) : Throwing κ π ε Unit :=
  ExceptT.mk fun p => do
    Calls.call c
    return (.ok (), f p)

/-- `Q` of a value and the states, or `E` of the states when there is none. -/
def After (E : π → σ → Prop) (Q : α → π → σ → Prop) : Except ε α × π → σ → Prop
  | (.ok a, p), s => Q a p s
  | (.error _, p), s => E p s

theorem After.same {E : π → σ → Prop} {r : Except ε α × π} {s : σ} (h : After E (fun _ => E) r s) :
    E r.2 s := by
  obtain ⟨_ | _, _⟩ := r <;> exact h

/-- Where `P` holds of the states of the program and of the interface, all calls are taken; `Q`
holds behind them, or `E` when the program throws. -/
def Safe (t : Contract σ κ) (E P : π → σ → Prop) (x : Throwing κ π ε α)
    (Q : α → π → σ → Prop) : Prop :=
  ∀ p, Triple t (P p) (x.run.run p) (After E Q)

namespace Safe

variable {E P : π → σ → Prop} {Q R : α → π → σ → Prop}

theorem pure {a : α} (h : ∀ p s, P p s → Q a p s) :
    Safe t E P (Pure.pure a : Throwing κ π ε α) Q := fun p => .pure (h p)

theorem throw {e : ε} (h : ∀ p s, P p s → E p s) :
    Safe t E P (MonadExcept.throw e : Throwing κ π ε α) Q := fun p => .pure (h p)

theorem throw_bind {e : ε} {f : β → Throwing κ π ε α} (h : ∀ p s, P p s → E p s) :
    Safe t E P (MonadExcept.throw e >>= f) Q := fun p => .pure (h p)

theorem modify {f : π → π} {Q : PUnit → π → σ → Prop} (h : ∀ p s, P p s → Q ⟨⟩ (f p) s) :
    Safe t E P (MonadStateOf.modifyGet fun p => (⟨⟩, f p) : Throwing κ π ε PUnit) Q :=
  fun p => .pure (h p)

theorem call {c : κ} {f : π → π} {Q : Unit → π → σ → Prop}
    (h : ∀ p s, P p s → ∃ s', t s c = some s' ∧ Q () (f p) s') :
    Safe t E P (Throwing.call c f : Throwing κ π ε Unit) Q :=
  fun p => Triple.bind (R := fun _ => Q () (f p)) (.call (h p)) fun _ => .pure fun _ hs => hs

theorem bind {x : Throwing κ π ε α} {f : α → Throwing κ π ε β} {Q : β → π → σ → Prop}
    (hx : Safe t E P x R) (hf : ∀ a, Safe t E (R a) (f a) Q) : Safe t E P (x >>= f) Q := by
  intro p
  show Triple t (P p) (x.run.run p >>= fun r => StateT.run (ExceptT.bindCont f r.1) r.2) _
  refine (hx p).bind fun r => ?_
  obtain ⟨e | a, p'⟩ := r
  · exact .pure fun _ hs => hs
  · exact hf a p'

theorem mono {P' : π → σ → Prop} {x : Throwing κ π ε α} (h : Safe t E P x Q)
    (hP : ∀ p s, P' p s → P p s) (hQ : ∀ a p s, Q a p s → R a p s) : Safe t E P' x R := by
  intro p
  refine (h p).mono (hP p) fun r s hs => ?_
  obtain ⟨e | a, p'⟩ := r
  · exact hs
  · exact hQ a p' s hs

/-- The state that a program starts in can be named. -/
theorem named {x : Throwing κ π ε α} (h : ∀ q, Safe t E (fun p s => p = q ∧ P q s) x Q) :
    Safe t E P x Q :=
  fun p s hp => h p p s ⟨rfl, hp⟩

/-- A program that looks at its state first. -/
theorem read_named {f : π → Throwing κ π ε α} {q : π}
    (h : Safe t E (fun p s => p = q ∧ P p s) (f q) Q) :
    Safe t E (fun p s => p = q ∧ P p s) (MonadState.get >>= f) Q := by
  intro p s hp
  obtain ⟨rfl, hp⟩ := hp
  exact h p s ⟨rfl, hp⟩

theorem read {f : π → Throwing κ π ε α} (h : ∀ q, Safe t E (fun p s => p = q ∧ P p s) (f q) Q) :
    Safe t E P (MonadState.get >>= f) Q :=
  fun p s hp => read_named (h p) p s ⟨rfl, hp⟩

/-- A handler goes on where the program has thrown. -/
theorem tryCatch {F : π → σ → Prop} {x : Throwing κ π ε α} {h : ε → Throwing κ π ε α}
    (hx : Safe t F P x Q) (hh : ∀ e, Safe t E F (h e) Q) :
    Safe t E P (MonadExcept.tryCatch x h) Q := by
  intro p
  simp only [MonadExcept.tryCatch, tryCatchThe, MonadExceptOf.tryCatch, ExceptT.tryCatch,
    ExceptT.run_mk, StateT.run_bind]
  refine (hx p).bind fun r => ?_
  obtain ⟨e | a, p'⟩ := r
  · exact hh e p'
  · exact .pure fun _ hs => hs

/-- A loop over a list, by what holds while these items are left. -/
theorem forM {I : List α → π → σ → Prop} {f : α → Throwing κ π ε PUnit}
    (h : ∀ a as, Safe t E (I (a :: as)) (f a) fun _ => I as) (as : List α) :
    Safe t E (I as) (as.forM f) fun _ => I [] := by
  induction as with
  | nil => exact pure fun _ _ hs => hs
  | cons a as ih => exact (h a as).bind fun _ => ih

end Safe

end Throwing

end Calls
