import BasicSketch.Proofs.TokenTable

set_option autoImplicit false

/-! The tokens of a line, as the table has them. -/

namespace BasicSketch.Token

inductive Laid : Nat → List Char → List Token → Prop
  | done (start : Nat) {gap : List Char} (white : ∀ c ∈ gap, isGap c = true) : Laid start gap []
  | token {start : Nat} {gap text rest : List Char} {kind : TokenKind} {ts : List Token}
    (white : ∀ c ∈ gap, isGap c = true) (reads : Reads kind text rest)
    (later : Laid (start + byteSize gap + byteSize text) rest ts) :
    Laid start (gap ++ (text ++ rest))
      (⟨kind, String.ofList gap, String.ofList text, start + byteSize gap⟩ :: ts)

variable {c : Char} {kind : TokenKind} {rest text rest' cs : List Char} {start : Nat}
  {ts : List Token}

theorem not_isGap_of_starts (starts : Starts kind c) : isGap c = false := by
  have named (name : Text.isNameChar c = true) : isGap c = false := by
    refine Bool.eq_false_iff.2 fun gap => ?_
    simp only [isGap, Bool.or_eq_true, beq_iff_eq] at gap
    rcases gap with (((rfl | rfl) | rfl) | rfl) | rfl <;> simp [Text.isNameChar] at name
  cases kind with
  | keyword k => exact named (isNameChar_of_start (Bool.or_eq_true_iff.2 (.inl starts)))
  | identifier => exact named (isNameChar_of_start starts)
  | integer => exact named (isNameChar_of_isDigit starts)
  | symbol s => exact (symbol_start starts).2.2
  | float =>
    rcases starts with digit | rfl
    · exact named (isNameChar_of_isDigit digit)
    · decide
  | hex | octal | binary | text =>
    obtain rfl : c = _ := starts
    decide
  | unknown =>
    simp only [Starts, Bool.or_eq_false_iff] at starts
    exact starts.1.1

theorem Reads.begins (reads : Reads kind text rest) :
    ∃ c more, text = c :: more ∧ isGap c = false := by
  cases reads with
  | longest matched =>
    obtain ⟨c, more, eq, starts⟩ := starts_of_matches matched
    exact ⟨c, more, eq, not_isGap_of_starts starts⟩
  | unclosed _ _ quote =>
    obtain ⟨tail, eq, -⟩ := quote
    exact ⟨'"', tail, eq, by decide⟩

theorem Reads.unique {kind' : TokenKind} {text' : List Char} (reads : Reads kind text rest)
    (reads' : Reads kind' text' rest') (same : text ++ rest = text' ++ rest') :
    kind = kind' ∧ text = text' ∧ rest = rest' := by
  have both (shorter : text.length ≤ text'.length) (longer : text'.length ≤ text.length) :
      text = text' ∧ rest = rest' := List.append_inj same (Nat.le_antisymm shorter longer)
  cases reads with
  | longest matched longest preferred =>
    cases reads' with
    | longest matched' longest' preferred' =>
      obtain ⟨rfl, rfl⟩ := both (longest' kind text (same ▸ List.prefix_append ..) matched)
        (longest kind' text' (same ▸ List.prefix_append ..) matched')
      refine ⟨?_, rfl, rfl⟩
      rcases preferred kind' matched' with eq | less
      · exact eq.symm
      · rcases preferred' kind matched with eq | less'
        · exact eq
        · omega
    | unclosed _ unmatched _ ends =>
      rw [ends, List.append_nil] at same
      exact absurd matched (unmatched kind text (same ▸ List.prefix_append ..))
  | unclosed unknown unmatched _ ends =>
    rw [ends, List.append_nil] at same
    cases reads' with
    | longest matched' =>
      exact absurd matched' (unmatched kind' text' (same ▸ List.prefix_append ..))
    | unclosed unknown' _ _ ends' =>
      rw [ends', List.append_nil] at same
      exact ⟨unknown.trans unknown'.symm, same, ends.trans ends'.symm⟩

theorem Reads.cut (reads : Reads kind text rest) (shorter : rest' <+: rest) :
    Reads kind text rest' := by
  cases reads with
  | longest matched longest preferred =>
    refine .longest matched (fun other longer start => ?_) preferred
    exact longest other longer (start.trans ((List.prefix_append_right_inj text).2 shorter))
  | unclosed unknown unmatched quote ends =>
    rw [ends, List.prefix_nil] at shorter
    exact .unclosed unknown unmatched quote shorter

theorem byteSize_append (a b : List Char) : byteSize (a ++ b) = byteSize a + byteSize b := by
  induction a with
  | nil => simp [byteSize]
  | cons c a ih => simp [byteSize, ih, Nat.add_assoc]

theorem byteSize_pos (cs : List Char) : 0 < byteSize (c :: cs) :=
  Nat.add_pos_left c.utf8Size_pos _

theorem scanFrom_skip (start : Nat) (gap : List Char) (skip : Nat) (cs : List Char) :
    scanFrom start gap skip cs = scanFrom start gap 0 (cs.drop skip) := by
  induction cs generalizing skip with
  | nil => cases skip <;> rfl
  | cons c rest ih =>
    cases skip with
    | zero => rfl
    | succ skip => exact ih skip

theorem laid_scanFrom (start : Nat) (gap : List Char) (white : ∀ c ∈ gap, isGap c = true)
    (cs : List Char) : Laid start (gap ++ cs) (scanFrom (start + byteSize gap) gap 0 cs) := by
  match cs with
  | [] => simpa [scanFrom] using Laid.done start white
  | c :: rest =>
    rw [scanFrom]
    split
    · rename_i blank
      have more : ∀ d ∈ gap ++ [c], isGap d = true := by
        simpa [or_imp, forall_and] using ⟨white, blank⟩
      have later := laid_scanFrom start _ more rest
      rwa [List.append_assoc, byteSize_append, ← Nat.add_assoc] at later
    · rename_i black
      obtain ⟨text, after, split, length, reads⟩ := finds_scan rest (Bool.eq_false_iff.2 black)
      obtain ⟨d, more, rfl, -⟩ := reads.begins
      obtain ⟨rfl, eq⟩ := List.cons.inj (split.trans List.cons_append)
      have taken : rest.take ((scan c rest).2 - 1) = more := by
        rw [length, eq, List.length_cons, Nat.add_sub_cancel, List.take_left]
      have left : rest.drop ((scan c rest).2 - 1) = after := by
        rw [length, eq, List.length_cons, Nat.add_sub_cancel, List.drop_left]
      have shorter : after.length < (c :: rest).length := by
        rw [eq, List.length_cons, List.length_append]
        omega
      rw [split]
      dsimp only
      rw [taken, scanFrom_skip, left]
      have later := laid_scanFrom (start + byteSize gap + byteSize (c :: more)) [] (by simp)
        after
      exact .token white reads later
termination_by cs.length

theorem laid_ofLine (line : String) : Laid 0 line.toList (ofLine line) := by
  have laid := laid_scanFrom 0 [] (by simp) line.toList
  exact laid

theorem gap_inj {gap gap' : List Char} {c' : Char} (white : ∀ d ∈ gap, isGap d = true)
    (white' : ∀ d ∈ gap', isGap d = true) (black : isGap c = false) (black' : isGap c' = false)
    (same : gap ++ c :: rest = gap' ++ c' :: rest') : gap = gap' ∧ c :: rest = c' :: rest' := by
  have first : (gap ++ c :: rest).takeWhile isGap = gap := by
    rw [List.takeWhile_append_of_pos white, List.takeWhile_cons_of_neg (by simp [black]),
      List.append_nil]
  have second : (gap' ++ c' :: rest').takeWhile isGap = gap' := by
    rw [List.takeWhile_append_of_pos white', List.takeWhile_cons_of_neg (by simp [black']),
      List.append_nil]
  have eq : gap = gap' := by rw [← first, same, second]
  subst eq
  exact ⟨rfl, List.append_cancel_left same⟩

theorem Laid.unique {cs' : List Char} {ts' : List Token} (laid : Laid start cs ts)
    (laid' : Laid start cs' ts') (same : cs = cs') : ts = ts' := by
  -- a gap that reaches the end of the text holds no token
  have empty {gap more : List Char} {kind : TokenKind} {text rest : List Char}
      (white : ∀ c ∈ gap, isGap c = true) (reads : Reads kind text rest) :
      gap ≠ more ++ (text ++ rest) := by
    rintro rfl
    obtain ⟨c, tail, rfl, black⟩ := reads.begins
    rw [white c (by simp)] at black
    cases black
  induction laid generalizing cs' ts' with
  | done _ white =>
    cases laid' with
    | done => rfl
    | token _ reads' => exact absurd same (empty white reads')
  | token white reads _ ih =>
    cases laid' with
    | done _ white' => exact absurd same.symm (empty white' reads)
    | token white' reads' later' =>
      obtain ⟨c, more, rfl, black⟩ := reads.begins
      obtain ⟨c', more', rfl, black'⟩ := reads'.begins
      obtain ⟨rfl, eq⟩ := gap_inj white white' black black' same
      obtain ⟨rfl, text, rfl⟩ := reads.unique reads' eq
      rw [text] at ih
      rw [text, ih later' rfl]

theorem Laid.spans (laid : Laid start cs ts) :
    ts.Pairwise (fun t u => t.stop ≤ u.start) ∧
      ∀ t ∈ ts, start ≤ t.start ∧ t.start < t.stop ∧ t.stop ≤ start + byteSize cs := by
  induction laid with
  | done => simp
  | @token start gap text rest kind ts _ reads _ ih =>
    obtain ⟨ordered, inside⟩ := ih
    obtain ⟨c, more, eq, -⟩ := reads.begins
    have pos : 0 < byteSize text := eq ▸ byteSize_pos more
    have whole : byteSize (gap ++ (text ++ rest)) =
        byteSize gap + (byteSize text + byteSize rest) := by
      rw [byteSize_append, byteSize_append]
    refine ⟨List.pairwise_cons.2 ⟨fun u mem => ?_, ordered⟩, List.forall_mem_cons.2 ⟨?_, ?_⟩⟩
    · rw [stop, String.toList_ofList]
      exact (inside u mem).1
    · simp only [stop, String.toList_ofList]
      omega
    · intro u mem
      have bounds := inside u mem
      omega

theorem Laid.reads (laid : Laid start cs ts) :
    ∀ t ∈ ts, ∃ before rest, cs = before ++ (t.text.toList ++ rest) ∧
      t.start = start + byteSize before ∧ Reads t.kind t.text.toList rest := by
  induction laid with
  | done => simp
  | @token start gap text rest kind ts _ reads _ ih =>
    refine List.forall_mem_cons.2 ⟨⟨gap, rest, by simp, rfl, by simpa using reads⟩, ?_⟩
    intro t mem
    obtain ⟨before, after, rfl, offset, reads'⟩ := ih t mem
    refine ⟨gap ++ text ++ before, after, by simp, ?_, reads'⟩
    rw [offset, byteSize_append, byteSize_append]
    omega

theorem size_utf8Encode (cs : List Char) : cs.utf8Encode.size = byteSize cs := by
  induction cs with
  | nil => rfl
  | cons c cs ih =>
    rw [List.utf8Encode_cons, ByteArray.size_append, ih, List.utf8Encode_singleton]
    simp [byteSize]

theorem extract_utf8Encode (before text rest : List Char) :
    (before ++ (text ++ rest)).utf8Encode.extract (byteSize before)
      (byteSize before + byteSize text) = text.utf8Encode := by
  rw [List.utf8Encode_append, List.utf8Encode_append, ← size_utf8Encode, ← size_utf8Encode,
    ← Nat.add_zero before.utf8Encode.size, Nat.add_assoc, ByteArray.extract_append_size_add,
    Nat.zero_add, ByteArray.extract_append_eq_left rfl]

def gapBytes : List UInt8 := [0x20, 0x09, 0x0D, 0x0A, 0x0C]

theorem mem_gapBytes {gap : List Char} (white : ∀ c ∈ gap, isGap c = true) :
    ∀ b ∈ gap.utf8Encode.data, b ∈ gapBytes := by
  induction gap with
  | nil => simp
  | cons c gap ih =>
    obtain ⟨blank, rest⟩ := List.forall_mem_cons.1 white
    have first : [c].utf8Encode.data.toList.all gapBytes.contains = true := by
      simp only [isGap, Bool.or_eq_true, beq_iff_eq] at blank
      rcases blank with (((rfl | rfl) | rfl) | rfl) | rfl <;> decide
    rw [List.utf8Encode_cons, ByteArray.data_append]
    intro b mem
    rcases Array.mem_append.1 mem with here | later
    · exact List.contains_iff_mem.1 (List.all_eq_true.1 first b here.val)
    · exact ih rest b later

theorem Laid.outside (laid : Laid start cs ts) (i : Nat) (inside : i < cs.utf8Encode.size)
    (out : ∀ t ∈ ts, start + i < t.start ∨ t.stop ≤ start + i) : cs.utf8Encode[i] ∈ gapBytes := by
  induction laid generalizing i with
  | done _ white => exact mem_gapBytes white _ (Array.getElem_mem ..)
  | @token start gap text rest kind ts white reads later ih =>
    obtain ⟨first, others⟩ := List.forall_mem_cons.1 out
    simp only [stop, String.toList_ofList] at first
    simp only [List.utf8Encode_append] at inside ⊢
    rcases Nat.lt_or_ge i gap.utf8Encode.size with before | after
    · rw [ByteArray.getElem_append_left before]
      exact mem_gapBytes white _ (Array.getElem_mem ..)
    · rw [size_utf8Encode] at after
      have beyond : byteSize gap + byteSize text ≤ i := by omega
      rw [ByteArray.getElem_append_right (by rwa [size_utf8Encode]),
        ByteArray.getElem_append_right (by rw [size_utf8Encode, size_utf8Encode]; omega)]
      apply ih
      intro t mem
      have bounds := others t mem
      rw [size_utf8Encode, size_utf8Encode]
      omega

/-- Each token of a line is the longest text at its place that a pattern of the table matches, or a
quote that is never closed; the bytes outside the spans are white space. -/
theorem tokens_follow_table (line : String) :
    (ofLine line).Pairwise (fun t u => t.stop ≤ u.start) ∧
    (∀ t ∈ ofLine line, t.start < t.stop ∧ t.stop ≤ line.utf8ByteSize ∧
      line.toByteArray.extract t.start t.stop = t.text.toByteArray) ∧
    (∀ i (inside : i < line.toByteArray.size),
      (∀ t ∈ ofLine line, i < t.start ∨ t.stop ≤ i) → line.toByteArray[i] ∈ gapBytes) ∧
    ∀ t ∈ ofLine line, ∃ before rest, line.toList = before ++ (t.text.toList ++ rest) ∧
      t.start = byteSize before ∧ Reads t.kind t.text.toList rest := by
  have laid := laid_ofLine line
  have encoded (s : String) : s.toByteArray = s.toList.utf8Encode := by
    rw [← String.toByteArray_ofList, String.ofList_toList]
  have reads : ∀ t ∈ ofLine line, ∃ before rest,
      line.toList = before ++ (t.text.toList ++ rest) ∧ t.start = byteSize before ∧
        Reads t.kind t.text.toList rest := by
    simpa only [Nat.zero_add] using laid.reads
  obtain ⟨ordered, spans⟩ := laid.spans
  refine ⟨ordered, fun t mem => ?_, fun i inside out => ?_, reads⟩
  · obtain ⟨-, full, within⟩ := spans t mem
    obtain ⟨before, rest, eq, offset, -⟩ := reads t mem
    refine ⟨full, ?_, ?_⟩
    · rw [← String.size_toByteArray, encoded, size_utf8Encode]
      simpa using within
    · rw [encoded, encoded, stop, offset, eq]
      exact extract_utf8Encode before t.text.toList rest
  · simp only [encoded] at inside ⊢
    exact laid.outside i inside (by simpa using out)

end BasicSketch.Token
