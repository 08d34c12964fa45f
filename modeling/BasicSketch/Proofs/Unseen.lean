import BasicSketch.Proofs.FixedFindings

set_option autoImplicit false

/-! What the linter does not look at. -/

namespace BasicSketch

open Text

namespace Token

/-- The characters of a line with one `x` for each byte of a quoted text that is closed. Inside such
a text `quoted` holds. -/
def mask : (quoted : Bool) → List Char → List Char
  | _, [] => []
  | quoted, c :: rest =>
    if c == '"' then c :: mask (!quoted && rest.contains '"') rest
    else if quoted then List.replicate c.utf8Size 'x' ++ mask true rest
    else c :: mask false rest

section Mask

variable {cs w rest : List Char}

theorem mask_append (plain : '"' ∉ cs) (rest : List Char) :
    mask false (cs ++ rest) = cs ++ mask false rest := by
  induction cs with
  | nil => rfl
  | cons c more ih =>
    obtain ⟨here, there⟩ : '"' ≠ c ∧ '"' ∉ more := by simpa using plain
    simp [mask, here.symm, ih there]

theorem mask_closed (inside : '"' ∉ cs) (rest : List Char) :
    mask false ('"' :: (cs ++ '"' :: rest)) =
      '"' :: (List.replicate (byteSize cs) 'x' ++ '"' :: mask false rest) := by
  have quoted : mask true (cs ++ '"' :: rest) =
      List.replicate (byteSize cs) 'x' ++ '"' :: mask false rest := by
    induction cs with
    | nil => rfl
    | cons c more ih =>
      obtain ⟨here, there⟩ : '"' ≠ c ∧ '"' ∉ more := by simpa using inside
      rw [byteSize, ← List.replicate_append_replicate, List.append_assoc, ← ih there]
      simp [mask, here.symm]
  have closed : (cs ++ '"' :: rest).contains '"' = true := by simp
  rw [← quoted, mask, closed]
  rfl

theorem byteSize_replicate (n : Nat) : byteSize (List.replicate n 'x') = n := by
  induction n with
  | zero => rfl
  | succ n ih =>
    rw [List.replicate_succ, byteSize, ih, Nat.add_comm]
    rfl

theorem prefix_of_prefix_mask (plain : '"' ∉ w) (begins : w <+: mask false cs) : w <+: cs := by
  induction cs generalizing w with
  | nil => exact begins
  | cons c rest ih =>
    cases w with
    | nil => exact List.nil_prefix
    | cons d more =>
      obtain ⟨here, there⟩ : '"' ≠ d ∧ '"' ∉ more := by simpa using plain
      rw [mask] at begins
      split at begins
      · rename_i quote
        obtain ⟨rfl, -⟩ := List.cons_prefix_cons.1 begins
        exact absurd (beq_iff_eq.1 quote).symm here
      · obtain ⟨rfl, later⟩ := List.cons_prefix_cons.1 begins
        exact List.cons_prefix_cons.2 ⟨rfl, ih there later⟩

theorem plain_of_matches {kind : TokenKind} (matched : kind.pattern.Matches w)
    (noText : kind ≠ .text) : '"' ∉ w := by
  intro quote
  by_cases word : kind.isWord = true
  · exact absurd (neighbours_of_matches matched word _ quote) (by decide)
  · have noMark : w ≠ ['\x27'] := by
      rintro rfl
      simp at quote
    exact absurd (inert_of_matches matched (Bool.eq_false_iff.2 word) noText noMark _ quote)
      (by decide)

theorem reads_quoted (inside : '"' ∉ cs) (after : List Char) :
    Reads .text ('"' :: (cs ++ ['"'])) after := by
  refine reads_of_scan (by decide) ?_
  have free : ∀ c ∈ cs, (c != '"') = true := fun c mem => bne_iff_ne.2 fun eq => inside (eq ▸ mem)
  have length : run (· != '"') (cs ++ '"' :: after) = cs.length := by
    rw [run, List.takeWhile_append_of_pos free]
    simp
  change scanQuote _ = _
  simp [scanQuote, length]

theorem Reads.masked {kind : TokenKind} {text : List Char} (reads : Reads kind text rest)
    (noText : kind ≠ .text) :
    Reads kind text (mask false rest) ∧ mask false (text ++ rest) = text ++ mask false rest := by
  cases reads with
  | longest matched longest preferred =>
    have whole := mask_append (plain_of_matches matched noText) rest
    refine ⟨.longest matched (fun other longer begins matches' => ?_) preferred, whole⟩
    have apart : other ≠ .text := by
      rintro rfl
      obtain ⟨c, more, rfl, starts⟩ := starts_of_matches matched
      obtain rfl : c = '"' := starts_of_begins matches' begins
      exact plain_of_matches matched noText List.mem_cons_self
    rw [← whole] at begins
    exact longest other longer
      (prefix_of_prefix_mask (plain_of_matches matches' apart) begins) matches'
  | unclosed unknown unmatched quote ends =>
    subst ends
    obtain ⟨tail, rfl, inside⟩ := quote
    have whole : mask false ('"' :: tail) = '"' :: tail := by
      simpa [mask, inside] using mask_append inside []
    exact ⟨.unclosed unknown unmatched ⟨tail, rfl, inside⟩ rfl, by simpa [mask] using whole⟩

end Mask

def maskedLine (line : String) : String := String.ofList (mask false line.toList)

def masked (t : Token) : Token := if t.kind = .text then { t with text := maskedLine t.text } else t

theorem Laid.masked {start : Nat} {cs : List Char} {ts : List Token} (laid : Laid start cs ts) :
    Laid start (mask false cs) (ts.map Token.masked) := by
  have unquoted {gap : List Char} (white : ∀ c ∈ gap, isGap c = true) : '"' ∉ gap := fun mem =>
    absurd (white _ mem) (by decide)
  induction laid with
  | done start white =>
    have same := mask_append (unquoted white) []
    rw [List.append_nil, mask, List.append_nil] at same
    rw [same]
    exact .done _ white
  | @token start gap text rest kind ts white reads later ih =>
    rw [mask_append (unquoted white), List.map_cons, Token.masked]
    split
    · rename_i quoted
      obtain rfl : kind = .text := quoted
      cases reads with
      | unclosed unknown => cases unknown
      | longest matched =>
        obtain ⟨a, rfl, inside⟩ := matches_text.1 matched
        have alone := mask_closed inside []
        have size : byteSize ('"' :: (List.replicate (byteSize a) 'x' ++ ['"'])) =
            byteSize ('"' :: (a ++ ['"'])) := by
          simp [byteSize, byteSize_append, byteSize_replicate]
        rw [← size] at ih
        have token := Laid.token white (reads_quoted (by simp) (mask false rest)) ih
        rw [mask] at alone
        rw [List.cons_append, List.append_assoc, List.singleton_append, mask_closed inside]
        simpa [maskedLine, alone] using token
    · rename_i noText
      obtain ⟨kept, same⟩ := reads.masked noText
      rw [same]
      exact .token white kept ih

theorem ofLine_maskedLine (line : String) : ofLine (maskedLine line) = (ofLine line).map masked :=
  (laid_ofLine (maskedLine line)).unique (laid_ofLine line).masked (by simp [maskedLine])

@[simp] theorem kind_masked (t : Token) : t.masked.kind = t.kind := by
  unfold masked
  split <;> rfl

@[simp] theorem start_masked (t : Token) : t.masked.start = t.start := by
  unfold masked
  split <;> rfl

theorem text_masked {t : Token} (noText : t.kind ≠ .text) : t.masked.text = t.text := by
  rw [masked, if_neg noText]

@[simp] theorem isNamed_masked (name : String) (t : Token) :
    t.masked.isNamed name = t.isNamed name := by
  rw [isNamed, isNamed, isWord, isWord, kind_masked]
  by_cases quoted : t.kind = .text
  · rw [quoted]
    rfl
  · rw [text_masked quoted]

end Token

namespace Lint

open Token (masked maskedLine text_masked)

section Masked

variable (ts : List Token)

theorem startsDebugDraw_masked : startsDebugDraw (ts.map masked) = startsDebugDraw ts := by
  match ts with
  | [] | [_] | [_, _] | _ :: _ :: _ :: _ => simp [startsDebugDraw]

theorem debugDraw?_masked : debugDraw? (ts.map masked) = (debugDraw? ts).map masked := by
  induction ts with
  | nil => rfl
  | cons t rest ih =>
    have here := startsDebugDraw_masked (t :: rest)
    rw [List.map_cons] at here
    rw [List.map_cons, debugDraw?, debugDraw?, here, ih]
    split <;> rfl

theorem declared?_masked : declared? (ts.map masked) = declared? ts := by
  match ts with
  | [] | [_] => rfl
  | dim :: name :: _ =>
    by_cases ident : name.kind = .identifier
    · simp [declared?, text_masked (t := name) (by simp [ident])]
    · simp [declared?, ident]

theorem findSome?_pairs_masked {α : Type} {look : Token × Token → Option α}
    (same : ∀ s t, look (masked s, masked t) = look (s, t)) :
    ((ts.map masked).zip (ts.map masked).tail).findSome? look =
      (ts.zip ts.tail).findSome? look := by
  rw [← List.map_tail, List.zip_map, List.findSome?_map]
  congr 1
  exact funext fun p => same p.1 p.2

theorem nameAfter?_masked (word : String) :
    nameAfter? word (ts.map masked) = nameAfter? word ts := by
  refine findSome?_pairs_masked ts fun s t => ?_
  by_cases ident : t.kind = .identifier
  · simp [text_masked (t := t) (by simp [ident])]
  · simp [ident]

theorem delay?_masked : delay? (ts.map masked) = delay? ts := by
  refine findSome?_pairs_masked ts fun s t => ?_
  by_cases number : t.kind = .integer
  · simp [text_masked (t := t) (by simp [number])]
  · simp [number]

end Masked

theorem isBaudRate_masked (t : Token) : isBaudRate t.masked = isBaudRate t := by
  by_cases number : t.kind = .integer
  · simp [isBaudRate, text_masked (t := t) (by simp [number])]
  · simp [isBaudRate, beq_eq_false_iff_ne.2 number]

namespace CodeLine

def masked (l : CodeLine) : CodeLine := ⟨l.number, "", l.tokens.map Token.masked⟩

def unquoting (f : Finding) : Finding := { f with snippet := "" }

theorem keeps_masked : Keeps unquoting masked where
  finding _ _ _ _ := rfl
  draw l := by simp [masked, debugDraw?_masked, Function.comp_def]
  name word l := nameAfter?_masked l.tokens word
  delay l := delay?_masked l.tokens

end CodeLine

open CodeLine (keeps_masked unquoting numbered)

theorem suspiciousBauds_masked (l : CodeLine) :
    suspiciousBauds l.masked = (suspiciousBauds l).map unquoting := by
  have find : l.masked.tokens.find? isBaudRate = (l.tokens.find? isBaudRate).map Token.masked := by
    rw [CodeLine.masked, List.find?_map]
    congr 2
    exact funext isBaudRate_masked
  rw [suspiciousBauds, find, suspiciousBauds]
  cases l.tokens.find? isBaudRate with
  | none => rfl
  | some t => simp [keeps_masked.finding]

theorem isUsed_masked (ls : List CodeLine) (name : String) (number : Nat) :
    isUsed (ls.map CodeLine.masked) name number = isUsed ls name number := by
  simp [isUsed, CodeLine.masked, Function.comp_def]

theorem unusedVariables_masked (ls : List CodeLine) :
    unusedVariables (ls.map CodeLine.masked) = (unusedVariables ls).map unquoting := by
  rw [unusedVariables, unusedVariables, List.filterMap_map, List.map_filterMap]
  congr 1
  funext l
  have declares : declared? l.masked.tokens = declared? l.tokens := declared?_masked l.tokens
  rw [Function.comp_apply, declares]
  cases declared? l.tokens with
  | none => rfl
  | some name =>
    simp only [Option.bind_some, isUsed_masked]
    change (if isUsed ls name l.number then none else _) = _
    split <;> rfl

theorem allFindings_masked (ls : List CodeLine) :
    allFindings (ls.map CodeLine.masked) = (allFindings ls).map unquoting := by
  have first (l : CodeLine) : debugDraws l.masked ++ suspiciousBauds l.masked =
      (debugDraws l ++ suspiciousBauds l).map unquoting := by
    rw [perLine_debugDraws.move keeps_masked, suspiciousBauds_masked, List.map_append]
  rw [allFindings, allFindings, perLine_blockingDelays.flatMap_map keeps_masked,
    missingDeletes_eq, missed_map keeps_masked, unusedVariables_masked, List.flatMap_map,
    missingDeletes_eq]
  simp only [first, List.map_append, List.map_flatMap]

def Finding.report (f : Finding) : Rule × String × Nat × Nat × String :=
  (f.rule, f.rule.severity, f.line, f.column, f.message)

theorem comments_and_quotes_not_linted {text other : String}
    (free : ∀ line ∈ lines text, Undirected line) (free' : ∀ line ∈ lines other, Undirected line)
    (same : (lines text).map (maskedLine ∘ LogicalLine.stripComment) =
      (lines other).map (maskedLine ∘ LogicalLine.stripComment)) :
    (findings text).map Finding.report = (findings other).map Finding.report := by
  have tokens (line : String) : Token.ofLine (maskedLine (LogicalLine.stripComment line)) =
      (codeTokens line).map Token.masked := Token.ofLine_maskedLine _
  have seen : (numbered 1 (lines text)).map CodeLine.masked =
      (numbered 1 (lines other)).map CodeLine.masked :=
    CodeLine.map_numbered_congr (fun n line => ⟨n, "", Token.ofLine line⟩)
      (fun n line => by rw [CodeLine.masked, Function.comp_apply, tokens]) 1 same
  have found := congrArg (List.map Finding.report ∘ allFindings) seen
  simp only [Function.comp_apply, allFindings_masked, List.map_map] at found
  rw [findings_of_undirected free, findings_of_undirected free', CodeLine.ofText_eq,
    CodeLine.ofText_eq]
  exact found

theorem comments_and_quotes_not_linted_remark :
    (findings "Print \"Delay 900\" ' Rem\nDelay 500").map Finding.report =
      (findings "Print \"Rem it'é\" Rem tft\nDelay 500' \"").map Finding.report := by
  have free : ∀ line ∈ lines "Print \"Delay 900\" ' Rem\nDelay 500", ':' ∉ line.toList := by decide
  have free' : ∀ line ∈ lines "Print \"Rem it'é\" Rem tft\nDelay 500' \"", ':' ∉ line.toList := by
    decide
  exact comments_and_quotes_not_linted (fun l mem => undirected_of_not_mem (free l mem))
    (fun l mem => undirected_of_not_mem (free' l mem)) (by decide +kernel)

end Lint

end BasicSketch
