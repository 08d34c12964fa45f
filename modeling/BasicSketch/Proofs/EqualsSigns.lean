import BasicSketch.Proofs.ExpressionParts
import BasicSketch.Proofs.ParenGroups

set_option autoImplicit false

/-! Equals signs in conditions. -/

namespace BasicSketch.Cpp

open Token Text

/-- The word is called or indexed if an argument list follows it, or it is made by `New` with the
arguments. -/
def TakesArguments (front : List Token) (word : Token) : Prop :=
  word.isWord = true ∧
    (behindNew front = true ∨ word.kind ≠ .keyword .New ∧ isOperatorWord word.kind = false)

/-- The token stands in an argument list, where `front` is before it and `after` behind it. -/
def InArguments (front : List Token) (t : Token) (after : List Token) : Prop :=
  ∃ f word opener a b close tail, front = f ++ word :: opener :: a ∧ TakesArguments f word ∧
    Group (opener :: (a ++ t :: after)) (a ++ t :: b) close tail

/-- No argument list that begins in `front` goes on in `ts`. -/
structure Clear (front ts : List Token) : Prop where
  ends : ∀ {f word x inside close tail}, front = f ++ word :: x → TakesArguments f word →
    Group (x ++ ts) inside close tail → inside.length + 2 ≤ x.length

variable {σ : Symbols} {before front rest inside tail : List Token} {t close : Token}

theorem Clear.outside (clear : Clear front (t :: rest)) : ¬InArguments front t rest := by
  rintro ⟨f, word, opener, a, b, close, tail, eq, takes, group⟩
  have closed := clear.ends eq takes group
  simp only [List.length_append, List.length_cons] at closed
  omega

theorem Clear.single (clear : Clear front (t :: rest))
    (bare : TakesArguments front t → argumentList? rest = none) : Clear (front ++ [t]) rest := by
  refine ⟨fun {f word x inside close tail} eq takes group => ?_⟩
  rcases List.eq_nil_or_concat x with rfl | ⟨x, u, rfl⟩
  · obtain ⟨rfl, rfl⟩ : front = f ∧ t = word := by simpa using eq
    have list := argumentList?_eq_some.2 group
    rw [List.nil_append, bare takes] at list
    cases list
  · obtain ⟨rfl, rfl⟩ : front = f ++ word :: x ∧ t = u := by
      rw [List.concat_eq_append, ← List.cons_append, ← List.append_assoc] at eq
      simpa using List.append_inj' eq rfl
    have closed := clear.ends rfl takes (by simpa using group)
    simp
    omega

theorem Group.within {i y inner : List Token} {last : Token} {behind : List Token}
    (even : Closes 0 (i ++ y)) (closing : isClosing close = true)
    (group : Group (y ++ close :: tail) inner last behind) : inner.length + 2 ≤ y.length + 1 := by
  rcases Nat.lt_or_ge inner.length y.length with less | beyond
  · omega
  cases whole : y ++ close :: tail with
  | nil => simp at whole
  | cons opener more =>
    rw [whole] at group
    have opens : isOpening opener = true := group.opens
    have rest : more = inner ++ last :: behind := group.whole
    -- up to the closing parenthesis, the group would have been left open
    have taken := congrArg (List.take (y.length + 1)) whole
    rw [List.take_succ_cons, rest, List.take_append_of_le_length beyond, ← List.singleton_append,
      ← List.append_assoc, List.take_append_of_le_length (by simp),
      List.take_of_length_le (by simp)] at taken
    have closings := congrArg (List.countP isClosing) taken
    have openings := congrArg (List.countP isOpening) taken
    have flat : isClosing opener = false := by simp [isClosing, beq_iff_eq.1 opens]
    simp [closing, flat, opens, not_isOpening closing] at closings openings
    have inside := group.even.2 y.length
    have ahead := even.2 i.length
    have all := even.1
    rw [List.take_left] at ahead
    rw [List.countP_append, List.countP_append] at all
    omega

theorem Clear.group {word : Token} (clear : Clear front (word :: rest))
    (group : Group rest inside close tail) :
    ∃ opener, rest = opener :: (inside ++ close :: tail) ∧
      Clear (front ++ word :: opener :: (inside ++ [close])) tail := by
  cases rest with
  | nil => cases group.opens
  | cons opener more =>
    obtain rfl : more = inside ++ close :: tail := group.whole
    refine ⟨opener, rfl, ⟨fun {f name x inner last behind} eq takes other => ?_⟩⟩
    have own (same : x = opener :: (inside ++ [close])) : inner.length + 2 ≤ x.length := by
      subst same
      have list := argumentList?_eq_some.2 group
      rw [argumentList?_eq_some.2 (by simpa using other)] at list
      cases list
      simp
    rcases List.append_eq_append_iff.1 eq with ⟨a, rfl, same⟩ | ⟨c, rfl, same⟩
    · cases a with
      | nil => exact own (List.cons.inj same).2.symm
      | cons _ a =>
        have eq : (opener :: inside) ++ [close] = a ++ name :: x := (List.cons.inj same).2
        rcases List.eq_nil_or_concat x with rfl | ⟨y, u, rfl⟩
        · -- a word is no parenthesis
          obtain ⟨-, same⟩ := List.append_inj' eq rfl
          cases same
          have word := takes.1
          simp [Token.isWord, TokenKind.isWord, beq_iff_eq.1 group.closing] at word
        · rw [List.concat_eq_append, ← List.cons_append, ← List.append_assoc] at eq
          obtain ⟨split, last⟩ := List.append_inj' eq rfl
          cases last
          have part : inside = (a ++ [name]).tail ++ y := by
            rw [← List.tail_append_of_ne_nil (by simp), List.append_assoc, List.singleton_append,
              ← split, List.tail_cons]
          have ends := Group.within (part ▸ group.even) group.closing (by simpa using other)
          simpa using ends
    · cases c with
      | nil => exact own (List.cons.inj same).2
      | cons _ c =>
        obtain ⟨rfl, rfl⟩ := List.cons.inj same
        have closed := clear.ends rfl takes (by simpa using other)
        simp
        omega

/-- An equals sign by itself that is in no argument list. -/
structure LoneEquals (front : List Token) (t : Token) (after : List Token) : Prop where
  equals : t.kind = .symbol .equals
  outside : ¬InArguments front t after
  before : ∀ u ∈ front.getLast?, u.kind ≠ .symbol .equals ∧ u.text ≠ "!"
  behind : ∀ u ∈ after.head?, u.kind ≠ .symbol .equals

/-- Some tokens of an expression and their text for each use of it. -/
structure Piece where
  tokens : List Token
  text : Mode → String
  seen : List Token

/-- The piece is written where `front` stands before it and `after` behind it. -/
structure Piece.Fits (σ : Symbols) (before front : List Token) (p : Piece) (after : List Token) :
    Prop where
  written : ∀ mode, write σ mode before (p.tokens ++ after) =
    p.text mode ++ write σ mode (p.seen ++ before) after
  last : p.seen.head? = p.tokens.getLast?
  doubled : (∃ t, p.tokens = [t] ∧ LoneEquals front t after ∧
      p.text .value = gapText before t ++ "=" ∧ p.text .condition = gapText before t ++ "==") ∨
    p.text .condition = p.text .value ∧
      ∀ a t b, p.tokens = a ++ t :: b → ¬LoneEquals (front ++ a) t (b ++ after)

/-- The pieces are written one after the other behind `front`; `before` is what they see of it. -/
def Pieced (σ : Symbols) : (before front : List Token) → List Piece → Prop
  | _, _, [] => True
  | before, front, p :: later => p.Fits σ before front (later.flatMap Piece.tokens) ∧
    Pieced σ (p.seen ++ before) (front ++ p.tokens) later

theorem Pieced.write_eq {mode : Mode} {pieces : List Piece}
    (pieced : Pieced σ before front pieces) :
    write σ mode before (pieces.flatMap Piece.tokens) =
      String.join (pieces.map (·.text mode)) := by
  induction pieces generalizing before front with
  | nil => rw [List.flatMap_nil, write.eq_def]; rfl
  | cons p later ih =>
    rw [List.flatMap_cons, pieced.1.written, ih pieced.2, List.map_cons, String.join_cons]

theorem Piece.fits_plain {p : Piece} (plain : ∀ u ∈ p.tokens, u.kind ≠ .symbol .equals)
    (same : p.text .condition = p.text .value) (last : p.seen.head? = p.tokens.getLast?)
    (written : ∀ mode, write σ mode before (p.tokens ++ rest) =
      p.text mode ++ write σ mode (p.seen ++ before) rest) : p.Fits σ before front rest := by
  refine ⟨written, last, .inr ⟨same, fun a t b eq lone => ?_⟩⟩
  exact plain t (by simp [eq]) lone.equals

theorem Piece.fits_list {lead : List Token} {word opener : Token} {text : Mode → String}
    (plain : ∀ u ∈ lead, u.kind ≠ .symbol .equals) (takes : TakesArguments (front ++ lead) word)
    (group : Group (opener :: (inside ++ close :: tail)) inside close tail)
    (written : ∀ mode, write σ mode before (lead ++ word :: opener :: (inside ++ close :: tail)) =
      text mode ++ write σ mode (close :: before) tail)
    (same : text .condition = text .value) :
    Piece.Fits σ before front ⟨lead ++ word :: opener :: (inside ++ [close]), text, [close]⟩
      tail := by
  refine ⟨fun mode => by simpa using written mode, by simp [List.getLast?_cons],
    .inr ⟨same, fun a t b eq lone => ?_⟩⟩
  have outer : ∀ u ∈ lead ++ [word, opener], u.kind ≠ .symbol .equals := by
    have opens : opener.kind = .symbol .leftParen := by simpa [isOpening] using group.opens
    have name : word.kind ≠ .symbol .equals := fun kind => by
      simpa [Token.isWord, TokenKind.isWord, kind] using takes.1
    simpa [or_imp, forall_and, opens, name] using plain
  obtain ⟨a, rfl, within⟩ :
      ∃ a', a = lead ++ [word, opener] ++ a' ∧ inside ++ [close] = a' ++ t :: b := by
    have eq : (lead ++ [word, opener]) ++ (inside ++ [close]) = a ++ t :: b := by simpa using eq
    rcases List.append_eq_append_iff.1 eq with found | ⟨c, split, same⟩
    · exact found
    · cases c with
      | nil => exact ⟨[], by simpa using split.symm, same.symm⟩
      | cons u c =>
        obtain ⟨rfl, -⟩ := List.cons.inj same
        exact absurd lone.equals (outer t (by simp [split]))
  rcases List.eq_nil_or_concat b with rfl | ⟨b, u, rfl⟩
  · obtain ⟨-, last⟩ := List.append_inj' within rfl
    cases last
    have closing := group.closing
    simp [isClosing, lone.equals] at closing
  · rw [List.concat_eq_append, ← List.cons_append, ← List.append_assoc] at within
    obtain ⟨rfl, last⟩ := List.append_inj' within rfl
    cases last
    exact lone.outside ⟨front ++ lead, word, opener, a, b, close, tail, by simp, takes,
      by simpa using group⟩

theorem spelling_condition (other : t.kind ≠ .symbol .equals) :
    spelling σ .condition before t rest = spelling σ .value before t rest := by
  unfold spelling
  split <;> first | rfl | contradiction

theorem Piece.fits_other (clear : Clear front (t :: rest))
    (context : before.head? = front.getLast?) (new : (t.kind == .keyword .New) = false)
    (word : (t.isWord && !isOperatorWord t.kind) = false) :
    Piece.Fits σ before front
      ⟨[t], fun mode => gapText before t ++ spelling σ mode before t rest, [t]⟩ rest := by
  by_cases equals : t.kind = .symbol .equals
  · refine ⟨fun _ => write_other new word, rfl, ?_⟩
    have alone : besideEquals before rest = false ↔
        (∀ u ∈ front.getLast?, u.kind ≠ .symbol .equals ∧ u.text ≠ "!") ∧
          ∀ u ∈ rest.head?, u.kind ≠ .symbol .equals := by
      rw [besideEquals, context]
      cases front.getLast? <;> cases rest.head? <;> simp
    simp only [spelling, equals]
    cases beside : besideEquals before rest with
    | true =>
      refine .inr ⟨rfl, fun a u b eq lone => ?_⟩
      obtain ⟨rfl, rfl, rfl⟩ : a = [] ∧ t = u ∧ b = [] := by cases a <;> simp_all
      have lonely := alone.2 ⟨by simpa using lone.before, lone.behind⟩
      simp [beside] at lonely
    | false =>
      obtain ⟨first, last⟩ := alone.1 beside
      exact .inl ⟨t, rfl, ⟨equals, clear.outside, first, last⟩, rfl, rfl⟩
  · refine fits_plain (by simpa using equals) ?_ rfl fun _ => write_other new word
    exact congrArg (gapText before t ++ ·) (spelling_condition equals)

theorem Piece.Fits.cons {p : Piece} (fits : p.Fits σ before front rest)
    (more : ∃ pieces, pieces.flatMap Piece.tokens = rest ∧
      Pieced σ (p.seen ++ before) (front ++ p.tokens) pieces) :
    ∃ pieces, pieces.flatMap Piece.tokens = p.tokens ++ rest ∧ Pieced σ before front pieces := by
  obtain ⟨pieces, rfl, pieced⟩ := more
  exact ⟨p :: pieces, rfl, fits, pieced⟩

theorem kind_ne_equals (word : t.isWord = true) : t.kind ≠ .symbol .equals := fun kind => by
  simp [Token.isWord, TokenKind.isWord, kind] at word

theorem exists_pieced (σ : Symbols) (before ts : List Token) (clear : Clear front ts)
    (context : before.head? = front.getLast?)
    (ready : behindNew front = true → ∀ t ∈ ts.head?, t.isWord = false) :
    ∃ pieces, pieces.flatMap Piece.tokens = ts ∧ Pieced σ before front pieces := by
  -- behind a token other than `New` any word is ready
  have free {t : Token} {front ts : List Token} (other : t.kind ≠ .keyword .New)
      (behind : behindNew (front ++ [t]) = true) : ∀ u ∈ ts.head?, u.isWord = false := by
    rw [behindNew_other other front []] at behind
    cases behind
  -- `New` itself takes no arguments, its object does
  have made {t : Token} {front rest : List Token} (new : t.kind = .keyword .New)
      (clear : Clear front (t :: rest))
      (ready : behindNew front = true → ∀ u ∈ (t :: rest).head?, u.isWord = false) :
      Clear (front ++ [t]) rest ∧ behindNew (front ++ [t]) = true := by
    have first : behindNew front = false := by
      cases behind : behindNew front with
      | false => rfl
      | true => simpa [Token.isWord, TokenKind.isWord, new] using ready behind t rfl
    refine ⟨clear.single fun takes => ?_, by simp [behindNew_append, first, new]⟩
    simp [TakesArguments, first, new] at takes
  have mode : Mode := .value
  induction mode, before, ts using write.induct σ generalizing front with
  | case1 => exact ⟨[], rfl, trivial⟩
  | case2 mode before t new =>
    have new := beq_iff_eq.1 new
    refine ⟨[⟨[t], fun _ => gapText before t ++ "new", [t]⟩], rfl, ?_, trivial⟩
    refine Piece.fits_plain (by simp [new]) rfl rfl fun mode => ?_
    rw [List.flatMap_nil, write.eq_def, write.eq_def σ mode _ []]
    simp [new]
  | case3 mode before t new object after word inside close tail list inner later =>
    have new := beq_iff_eq.1 new
    have group := argumentList?_eq_some.1 list
    obtain ⟨clear, behind⟩ := made new clear ready
    obtain ⟨opener, rfl, clear'⟩ := clear.group group
    have fits := @Piece.fits_list σ before front inside tail close [t] object opener _
      (by simp [new]) ⟨word, .inl behind⟩ group (fun _ => write_new_list new word list) rfl
    have other : close.kind ≠ .keyword .New := by simp [beq_iff_eq.1 group.closing]
    have more := later (by simpa using clear') (by simp [List.getLast?_cons]) fun behind =>
      @free close (front ++ t :: object :: opener :: inside) _ other (by simpa using behind)
    simpa using fits.cons more
  | case4 mode before t new object after word list later =>
    have new := beq_iff_eq.1 new
    obtain ⟨clear, behind⟩ := made new clear ready
    have fits := @Piece.fits_plain σ before front after ⟨[t, object], _, [object, t]⟩
      (by simp [new, kind_ne_equals word]) rfl rfl fun _ => write_new_bare new word list
    refine fits.cons (later (by simpa using clear.single fun _ => list) (by simp) fun next => ?_)
    rw [← List.singleton_append, ← List.append_assoc, behindNew_append, behind] at next
    cases next
  | case5 mode before t new object after word later =>
    have new := beq_iff_eq.1 new
    have word : object.isWord = false := by simpa using word
    obtain ⟨clear, behind⟩ := made new clear ready
    have fits := @Piece.fits_plain σ before front (object :: after) ⟨[t], _, [t]⟩
      (by simp [new]) rfl rfl fun _ => write_new_alone new word
    exact fits.cons (later clear (by simp) fun _ => by simpa using word)
  | case6 mode before t rest new word list later =>
    have new : (t.kind == .keyword .New) = false := by simpa using new
    have fits := @Piece.fits_plain σ before front rest ⟨[t], _, [t]⟩
      (by simpa using kind_ne_equals (Bool.and_eq_true_iff.1 word).1) rfl rfl
      fun _ => write_name new word list
    exact fits.cons (later (clear.single fun _ => list) (by simp) (free (by simpa using new)))
  | case7 mode before t rest new word inside close tail list inner values later =>
    have new : (t.kind == .keyword .New) = false := by simpa using new
    have group := argumentList?_eq_some.1 list
    have takes : TakesArguments (front ++ []) t := by
      simp at word new
      exact ⟨word.1, .inr ⟨new, word.2⟩⟩
    obtain ⟨opener, rfl, clear'⟩ := clear.group group
    have fits := @Piece.fits_list σ before front inside tail close [] t opener _ (by simp) takes
      group (fun _ => write_call new word list) rfl
    have other : close.kind ≠ .keyword .New := by simp [beq_iff_eq.1 group.closing]
    have more := later (by simpa using clear') (by simp [List.getLast?_cons]) fun behind =>
      @free close (front ++ t :: opener :: inside) _ other (by simpa using behind)
    simpa using fits.cons more
  | case8 mode before t rest new word later =>
    have new : (t.kind == .keyword .New) = false := by simpa using new
    have word : (t.isWord && !isOperatorWord t.kind) = false := by simpa using word
    have bare : ¬TakesArguments front t := by
      rintro ⟨isWord, behind | ⟨-, operator⟩⟩
      · exact absurd (ready behind t rfl) (by simp [isWord])
      · simp [isWord, operator] at word
    have fits := @Piece.fits_other σ before front rest t clear context new word
    exact fits.cons (later (clear.single fun takes => absurd takes bare) (by simp)
      (free (by simpa using new)))

/-- As a condition each piece is written as for the value, but for the lone equals signs, which are
doubled. -/
theorem condition_doubles_lone_equals (σ : Symbols) (e : Expr) :
    ∃ pieces : List Piece, pieces.flatMap Piece.tokens = ofLine e.text ∧ Pieced σ [] [] pieces ∧
      value σ e = trim (String.join (pieces.map (·.text .value))) ∧
      condition σ e = trim (String.join (pieces.map (·.text .condition))) := by
  have clear : Clear [] (ofLine e.text) := ⟨fun eq => by simp at eq⟩
  obtain ⟨pieces, tokens, pieced⟩ := exists_pieced σ [] _ clear rfl nofun
  refine ⟨pieces, tokens, pieced, ?_, ?_⟩
  · rw [value, expression, ← tokens, ← pieced.write_eq]
  · rw [condition, expression, ← tokens, ← pieced.write_eq]

end BasicSketch.Cpp
