/-
This file says when computations that can fail succeed.
-/

namespace ElementQuery

variable {E A B : Type}

/-- A result of two computations in a row comes from a result of the first. -/
theorem bind_eq_ok {first : Except E A} {second : A → Except E B} {result : B} :
    (first >>= second) = .ok result ↔ ∃ value, first = .ok value ∧ second value = .ok result := by
  cases first with
  | error fault => exact ⟨fun equal => (nomatch equal), fun given => (nomatch given.choose_spec.1)⟩
  | ok value =>
      constructor
      · exact fun equal => ⟨value, rfl, equal⟩
      · rintro ⟨_, ⟨rfl⟩, equal⟩
        exact equal

theorem pure_eq_ok {value result : A} :
    (pure value : Except E A) = .ok result ↔ value = result :=
  ⟨Except.ok.inj, congrArg Except.ok⟩

end ElementQuery
