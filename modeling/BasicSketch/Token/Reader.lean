import BasicSketch.Token.Group

set_option autoImplicit false

/-! Readers take tokens off the front of a line. -/

namespace BasicSketch

open Token

def Reader (α : Type) : Type :=
  (ts : List Token) → Except LineError { r : α × List Token // r.2 <:+ ts }

namespace Reader

variable {α β : Type}

protected def pure (a : α) : Reader α := fun ts => .ok ⟨(a, ts), List.suffix_refl ts⟩

protected def bind (x : Reader α) (f : α → Reader β) : Reader β := fun ts =>
  match x ts with
  | .error e => .error e
  | .ok ⟨(a, rest), left⟩ =>
    match f a rest with
    | .error e => .error e
    | .ok ⟨r, left'⟩ => .ok ⟨r, left'.trans left⟩

instance : Monad Reader where
  pure := Reader.pure
  bind := Reader.bind

def run (x : Reader α) (ts : List Token) : Except LineError (α × List Token) :=
  match x ts with
  | .error e => .error e
  | .ok r => .ok r.1

@[simp] theorem run_pure (a : α) (ts : List Token) : (pure a : Reader α).run ts = .ok (a, ts) :=
  rfl

@[simp] theorem run_bind (x : Reader α) (f : α → Reader β) (ts : List Token) :
    (x >>= f).run ts =
      match x.run ts with
      | .error e => .error e
      | .ok (a, rest) => (f a).run rest := by
  simp only [run, bind, Reader.bind]
  cases x ts with
  | error e => rfl
  | ok r =>
    obtain ⟨⟨a, rest⟩, left⟩ := r
    simp only
    cases f a rest <;> rfl

theorem suffix_of_run {x : Reader α} {ts rest : List Token} {a : α}
    (h : x.run ts = .ok (a, rest)) : rest <:+ ts := by
  simp only [run] at h
  split at h
  · simp at h
  · rename_i r eq
    simp only [Except.ok.injEq] at h
    have left := r.2
    rwa [h] at left

def value (x : Reader α) (ts : List Token) : Except LineError α := (x.run ts).map Prod.fst

def fail (e : LineError) : Reader α := fun _ => .error e

def errorHere (expected : String) : List Token → LineError
  | [] => .lineEnd expected
  | t :: _ => .unexpected expected t.text t.start

def failHere (expected : String) : Reader α := fun ts => .error (errorHere expected ts)

def ahead : Reader (List Token) := fun ts => .ok ⟨(ts, ts), List.suffix_refl ts⟩

def nextKind : Reader (Option TokenKind) := do
  return (← ahead).head?.map Token.kind

def skip : Reader Unit := fun ts => .ok ⟨((), ts.tail), List.tail_suffix ts⟩

def acceptIf (p : Token → Bool) : Reader Bool := fun ts =>
  match ts with
  | [] => .ok ⟨(false, []), List.suffix_refl []⟩
  | t :: rest =>
    if p t then .ok ⟨(true, rest), List.suffix_cons t rest⟩
    else .ok ⟨(false, t :: rest), List.suffix_refl _⟩

def accept (kind : TokenKind) : Reader Bool := acceptIf (·.kind == kind)

def acceptWord (name : String) : Reader Bool := acceptIf (Token.isNamed name)

def take (p : Token → Bool) (expected : String) : Reader Token := fun ts =>
  match ts with
  | [] => .error (errorHere expected [])
  | t :: rest =>
    if p t then .ok ⟨(t, rest), List.suffix_cons t rest⟩
    else .error (errorHere expected (t :: rest))

def expect (kind : TokenKind) (expected : String) : Reader Unit := do
  let _ ← take (·.kind == kind) expected

def name (expected : String) : Reader String := do
  return (← take Token.isWord expected).text

def lineEnd : Reader Unit := fun ts =>
  match ts with
  | [] => .ok ⟨((), []), List.suffix_refl []⟩
  | t :: _ => .error (.unexpected "end of line" t.text t.start)

def exprUntil (expected : String) (stop : TokenKind → Bool) : Reader Expr := fun ts =>
  let parts := splitAtTop stop 0 ts
  if parts.1.isEmpty then .error (errorHere expected ts)
  else
    match checkBalanced parts.1 with
    | .error e => .error e
    | .ok _ => .ok ⟨(Expr.ofText (slice parts.1), parts.2), splitAtTop_suffix stop 0 ts⟩

def restExpr (expected : String) : Reader Expr := exprUntil expected (fun _ => false)

def callArguments : Reader (List Expr) := fun ts =>
  match Token.callArguments ts with
  | .error e => .error e
  | .ok es => .ok ⟨(es, []), List.nil_suffix⟩

/-- Takes a bracketed group whose opening bracket comes next: that one, the tokens inside, and
the closing one. -/
def group (expected : String) : Reader (Token × List Token × Token) := fun ts =>
  match ts with
  | [] => .error (errorHere expected [])
  | t :: rest =>
    match h : closeGroup? 0 rest with
    | none => .error (.unbalanced t.start)
    | some (inside, close, after) =>
      .ok ⟨((t, inside, close), after), (closeGroup?_suffix h).trans (List.suffix_cons t rest)⟩

def groupArguments (inside : List Token) (close : Token) : Reader (List Expr) :=
  match Token.arguments close.start inside with
  | .error e => fail e
  | .ok es => pure es

def commaList (item : Reader α) : Reader (List α) := fun ts =>
  match item ts with
  | .error e => .error e
  | .ok ⟨(a, []), left⟩ => .ok ⟨([a], []), left⟩
  | .ok ⟨(a, t :: rest), left⟩ =>
    if t.kind == .symbol .comma then
      match commaList item rest with
      | .error e => .error e
      | .ok ⟨(more, rest'), left'⟩ =>
        .ok ⟨(a :: more, rest'), left'.trans ((List.suffix_cons t rest).trans left)⟩
    else .ok ⟨([a], t :: rest), left⟩
termination_by ts => ts.length
decreasing_by
  have shorter := left.length_le
  simp only [List.length_cons] at shorter
  omega

end Reader

end BasicSketch
