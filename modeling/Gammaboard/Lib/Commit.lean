/-!
# Transactions whose reply may be lost

A caller sends a transaction and waits. The transaction commits or it does not,
and after a commit the reply may still be lost: then the caller sees an error
and the change is there. `settle` is what the two sides are left with.
-/

namespace Gammaboard.Lib

universe u v

inductive Fate (ε : Type u) where
  /-- The transaction does not commit. -/
  | refused (error : ε)
  /-- The transaction commits if it can; the reply does not arrive. -/
  | lost (error : ε)
  | acknowledged
  deriving DecidableEq, Repr

namespace Fate

variable {ε : Type u} {T : Type v}

/-- The caller sees an error. -/
def Fails : Fate ε → Prop
  | .acknowledged => False
  | .refused _ | .lost _ => True

instance : ∀ fate : Fate ε, Decidable fate.Fails
  | .acknowledged => .isFalse id
  | .refused _ | .lost _ => .isTrue trivial

/-- The same attempt, had it not reached the database. -/
def withheld : Fate ε → Fate ε
  | .lost e => .refused e
  | fate => fate

/-- The tables and the caller's reply. `none` is a statement that fails with `error`. -/
def settle (error : ε) (apply : T → Option T) (fate : Fate ε) (t : T) : T × Except ε Unit :=
  match fate with
  | .refused e => (t, .error e)
  | .lost e => ((apply t).getD t, .error e)
  | .acknowledged =>
    match apply t with
    | none => (t, .error error)
    | some t' => (t', .ok ())

variable {error : ε} {apply : T → Option T}

@[simp] theorem settle_refused (e : ε) (t : T) :
    settle error apply (.refused e) t = (t, .error e) := rfl

@[simp] theorem settle_lost (e : ε) (t : T) :
    settle error apply (.lost e) t = ((apply t).getD t, .error e) := rfl

/-- A failing caller sees the same whether or not its attempt reached the database. -/
theorem settle_withheld {fate : Fate ε} (h : fate.Fails) (t t' : T) :
    settle error apply fate.withheld t' = (t', (settle error apply fate t).2) := by
  cases fate with
  | refused e => rfl
  | lost e => rfl
  | acknowledged => exact h.elim

theorem settle_acknowledged_ok {t : T} :
    (settle error apply .acknowledged t).2 = .ok () ↔ (apply t).isSome := by
  cases h : apply t with
  | none => simp [settle, h]
  | some t' => simp [settle, h]

theorem settle_acknowledged_of_some {t t' : T} (h : apply t = some t') :
    settle error apply .acknowledged t = (t', .ok ()) := by
  simp [settle, h]

end Fate

end Gammaboard.Lib
