/-
This file holds the warnings about degraded input and the log that prints each of them once.
-/

namespace ElementQuery

/-- A warning names the component that gave way and says what it did. -/
structure Warning where
  component : String
  message : String
deriving DecidableEq, Repr

/-- A log tells two warnings apart by this text. -/
def Warning.key (warning : Warning) : String :=
  "[" ++ warning.component ++ "] " ++ warning.message

/-- A printed warning carries this text. -/
def Warning.line (warning : Warning) : String :=
  "[flow " ++ warning.component ++ "] ⚠ " ++ warning.message

/-- Yellow ink is a terminal sequence before and after the text. -/
def Warning.printed (warning : Warning) : String :=
  "\x1b[33m" ++ warning.line ++ "\x1b[39m\n"

/-- A computation that may warn yields its value with its warnings in order. -/
structure Warned (A : Type) where
  value : A
  warnings : List Warning
deriving Repr

namespace Warned

instance : Monad Warned where
  pure value := ⟨value, []⟩
  bind first next :=
    let second := next first.value
    ⟨second.value, first.warnings ++ second.warnings⟩

/-- One warning is given. -/
def warn (component message : String) : Warned Unit :=
  ⟨(), [⟨component, message⟩]⟩

@[simp] theorem pure_value {A : Type} (value : A) : (pure value : Warned A).value = value := rfl

@[simp] theorem pure_warnings {A : Type} (value : A) : (pure value : Warned A).warnings = [] := rfl

@[simp] theorem bind_value {A B : Type} (first : Warned A) (next : A → Warned B) :
    (first >>= next).value = (next first.value).value := rfl

@[simp] theorem bind_warnings {A B : Type} (first : Warned A) (next : A → Warned B) :
    (first >>= next).warnings = first.warnings ++ (next first.value).warnings := rfl

@[simp] theorem warn_warnings (component message : String) :
    (warn component message).warnings = [⟨component, message⟩] := rfl

theorem pure_bind {A B : Type} (value : A) (next : A → Warned B) : (pure value >>= next) = next value := rfl

theorem bind_pure {A : Type} (first : Warned A) : (first >>= pure) = first :=
  congrArg (Warned.mk _) (List.append_nil _)

theorem bind_assoc {A B C : Type} (first : Warned A) (next : A → Warned B) (last : B → Warned C) :
    (first >>= next >>= last) = first >>= fun value => next value >>= last :=
  congrArg (Warned.mk _) (List.append_assoc _ _ _)

/-- What follows a computation is asked for at its value only. -/
theorem bind_congr {A B : Type} {first : Warned A} {next other : A → Warned B}
    (same : next first.value = other first.value) : (first >>= next) = first >>= other :=
  congrArg (fun second : Warned B => Warned.mk second.value (first.warnings ++ second.warnings)) same

end Warned

/-- A log remembers the keys of the warnings that it was given; a quiet log prints none of them. -/
structure WarningLog where
  keys : List String := []
  quiet : Bool := false
deriving Repr

namespace WarningLog

/-- A fresh log remembers nothing and prints. -/
def fresh : WarningLog := {}

/-- The log has been given a warning with this key since it was last cleared. -/
def has (log : WarningLog) (warning : Warning) : Bool :=
  log.keys.contains warning.key

/-- A warning is remembered, whether or not it is printed. -/
def record (log : WarningLog) (warning : Warning) : WarningLog :=
  if log.has warning then log else { log with keys := warning.key :: log.keys }

/-- A warning is printed when it is new and the log is not quiet. -/
def prints (log : WarningLog) (warning : Warning) : Bool :=
  !log.has warning && !log.quiet

/-- Warnings are recorded in order, and those that are printed come back. -/
def recordAll : WarningLog → List Warning → WarningLog × List Warning
  | log, [] => (log, [])
  | log, warning :: rest =>
      let later := (log.record warning).recordAll rest
      (later.1, if log.prints warning then warning :: later.2 else later.2)

/-- Clearing forgets every key and keeps the log as quiet as it was. -/
def clear (log : WarningLog) : WarningLog :=
  { log with keys := [] }

/-- A quiet log goes on recording. -/
def setQuiet (log : WarningLog) (quiet : Bool) : WarningLog :=
  { log with quiet }

theorem has_record (log : WarningLog) (warning other : Warning) :
    (log.record warning).has other = (other.key == warning.key || log.has other) := by
  unfold record
  split
  · rename_i known
    by_cases same : other.key = warning.key
    · simp_all [has]
    · simp [same]
  · rw [Bool.eq_iff_iff]
    simp [has]

@[simp] theorem quiet_record (log : WarningLog) (warning : Warning) :
    (log.record warning).quiet = log.quiet := by
  unfold record
  split <;> rfl

theorem has_clear (log : WarningLog) (warning : Warning) : log.clear.has warning = false := by
  simp [clear, has]

end WarningLog

end ElementQuery
