import Mathlib.Data.List.Infix

/-! # Scanners

Programs that move a pointer forward over a buffer. The pointer is what is left of the buffer from
it on: at the end that is nothing, and moving or reading past the end is a failure of its own. A
scanner that throws leaves the pointer where it is. The rules here are about any scanner made of the
primitives: where it can stop, that it stops, and that it takes no notice of what lies behind the
place where it stops.
-/

/-- How a scanner fails: it throws, where it is; it goes or looks outside the buffer; a loop is given too few turns. -/
inductive ScanFailure (Token Error : Type)
  | thrown (what : Error) (rest : List Token)
  | outside
  | outOfFuel
deriving DecidableEq

abbrev Scan (Token Error : Type) := StateT (List Token) (Except (ScanFailure Token Error))

namespace Scan

variable {Token Error α β σ τ : Type}

/-- What the pointer is at, unless it is at the end. -/
def peek : Scan Token Error (Option Token) := fun rest => .ok (rest.head?, rest)

/-- Moves without a look at the end. -/
def advance (n : ℕ) : Scan Token Error Unit := fun rest =>
  if n ≤ rest.length then .ok ((), rest.drop n) else .error .outside

/-- Moves by one, unless at the end. -/
def step : Scan Token Error Unit := fun rest => .ok ((), rest.tail)

/-- Moves while the test holds, not past the end, and says what was passed. -/
def takeWhile (test : Token → Bool) : Scan Token Error (List Token) :=
  fun rest => .ok (rest.takeWhile test, rest.dropWhile test)

def skipWhile (test : Token → Bool) : Scan Token Error Unit := fun rest => .ok ((), rest.dropWhile test)

/-- Reads from what was passed before. -/
def readAt (passed : List Token) (i : ℕ) : Scan Token Error Token := fun rest =>
  match passed[i]? with
  | some token => .ok (token, rest)
  | none => .error .outside

def throwing (what : Error) : Scan Token Error α := fun rest => .error (.thrown what rest)

def iterate (body : σ → Scan Token Error (σ ⊕ τ)) : ℕ → σ → Scan Token Error τ
  | 0, _ => fun _ => .error .outOfFuel
  | fuel + 1, state => do
    match ← body state with
    | .inl next => iterate body fuel next
    | .inr result => pure result

/-- Goes on with `inl` and leaves the loop with `inr`. No loop has more turns than there are tokens
left, and one to leave it. -/
def loop (body : σ → Scan Token Error (σ ⊕ τ)) (state : σ) : Scan Token Error τ := fun rest =>
  iterate body (rest.length + 1) state rest

variable {x : Scan Token Error α} {f : α → Scan Token Error β} {rest after : List Token}

theorem pure_apply (a : α) (rest : List Token) : (pure a : Scan Token Error α) rest = .ok (a, rest) := rfl

theorem bind_of_ok {a : α} (run : x rest = .ok (a, after)) : (x >>= f) rest = f a after := by
  change Except.bind (x rest) _ = _
  rw [run]
  rfl

theorem bind_of_error {failure : ScanFailure Token Error} (run : x rest = .error failure) :
    (x >>= f) rest = .error failure := by
  change Except.bind (x rest) _ = _
  rw [run]
  rfl

@[simp] theorem peek_bind (g : Option Token → Scan Token Error β) : (peek >>= g) rest = g rest.head? rest := rfl

@[simp] theorem step_bind (g : Unit → Scan Token Error β) : (step >>= g) rest = g () rest.tail := rfl

@[simp] theorem advance_one_bind (token : Token) (g : Unit → Scan Token Error β) :
    (advance 1 >>= g) (token :: rest) = g () rest := by
  apply bind_of_ok
  simp [advance]

@[simp] theorem takeWhile_bind (test : Token → Bool) (g : List Token → Scan Token Error β) :
    (takeWhile test >>= g) rest = g (rest.takeWhile test) (rest.dropWhile test) := rfl

@[simp] theorem skipWhile_bind (test : Token → Bool) (g : Unit → Scan Token Error β) :
    (skipWhile test >>= g) rest = g () (rest.dropWhile test) := rfl

theorem readAt_bind {passed : List Token} {i : ℕ} {token : Token} (isAt : passed[i]? = some token)
    (g : Token → Scan Token Error β) : readAt passed i >>= g = g token := by
  funext rest
  apply bind_of_ok
  simp [readAt, isAt]

/-- Passes over what meets the test and stops ahead of what does not. -/
theorem takeWhile_run {test : Token → Bool} {passed : List Token} (meets : ∀ token ∈ passed, test token)
    (stops : ∀ token, rest.head? = some token → test token = false) :
    (takeWhile test : Scan Token Error (List Token)) (passed ++ rest) = .ok (passed, rest) := by
  have here : rest.takeWhile test = [] ∧ rest.dropWhile test = rest := by
    cases rest with
    | nil => exact ⟨rfl, rfl⟩
    | cons token rest =>
      have fails := stops token rfl
      exact ⟨List.takeWhile_cons_of_neg (by simp [fails]), List.dropWhile_cons_of_neg (by simp [fails])⟩
  unfold takeWhile
  rw [List.takeWhile_append_of_pos meets, List.dropWhile_append_of_pos meets, here.1, here.2, List.append_nil]

theorem skipWhile_run {test : Token → Bool} {passed : List Token} (meets : ∀ token ∈ passed, test token)
    (stops : ∀ token, rest.head? = some token → test token = false) :
    (skipWhile test : Scan Token Error Unit) (passed ++ rest) = .ok ((), rest) := by
  change (takeWhile test >>= fun _ => pure ()) (passed ++ rest) = _
  rw [bind_of_ok (takeWhile_run meets stops)]
  rfl

end Scan
