import BasicSketch.Cpp.TypeName
import BasicSketch.Proofs.BuiltinSpelling

set_option autoImplicit false

/-!
Expressions are written on one line: where no token and no array bound has a line feed, none is put
into the C++ text.
-/

namespace BasicSketch

open Text

def Symbols.Flat (σ : Symbols) : Prop := ∀ entry ∈ σ.bounds, ∀ bound ∈ entry.2, Text.Flat bound

namespace Cpp

theorem flat_fillText {fill : String} (flat : Flat fill) : Flat (fillText fill) := by
  unfold fillText
  split
  · rename_i c eq
    split
    · exact flat
    · apply flat_ofList
      have other : '\n' ≠ c := by
        rintro rfl
        exact flat (by simp [eq])
      simp [other]
  · exact flat

theorem flatSpelling : Spelling (fun _ _ => Flat) fun _ _ => Flat where
  follows := id
  leads flat _ := flat
  append first second := (flat_append ..).2 ⟨first, second⟩
  join first second := (flat_append ..).2 ⟨first, second⟩
  fixed flat _ _ := flat
  fill flat i := flat_fillText (flat i)

def fixedTexts : List String :=
  constants.map Prod.snd ++ (Display.basicInks ++ Display.extendedInks).flatMap fun entry =>
    [entry.2.tft, entry.2.named, entry.2.mono]

variable {name : String} {before rest piece : List Token} {mode : Mode}
  {L : List Char → List Char → List Token → Prop} {Q : List Char → List Char → String → Prop}
  {e : Expr}

theorem color?_mem {display : Display} {color : String} (found : display.color? name = some color) :
    color ∈ fixedTexts := by
  obtain ⟨ink, known, rfl⟩ := Option.map_eq_some_iff.1 found
  have listed : ∃ key, (key, ink) ∈ Display.basicInks ++ Display.extendedInks := by
    unfold Display.ink? at known
    split at known
    · exact ⟨_, mem_of_lookup known⟩
    · exact ⟨_, List.mem_append_left _ (mem_of_lookup known)⟩
    · simp at known
  obtain ⟨key, mem⟩ := listed
  refine List.mem_append_right _ (List.mem_flatMap.2 ⟨_, mem, ?_⟩)
  cases display <;> simp

theorem bareName_eq (σ : Symbols) (name : String) :
    bareName σ name = name ∨ bareName σ name ∈ fixedTexts := by
  unfold bareName
  split
  · rename_i text known
    exact .inr (List.mem_append_left _ (List.mem_map.2 ⟨_, mem_of_lookup known, rfl⟩))
  · cases eq : σ.panel.color? name with
    | none => exact .inl rfl
    | some color => exact .inr (color?_mem eq)

theorem fixedTexts_spelled : ∀ text ∈ fixedTexts, Flat text ∧ LeadsStatement text := by decide

theorem bareName_spelled (σ : Symbols) (flat : Flat name) (leads : LeadsStatement name) :
    Flat (bareName σ name) ∧ LeadsStatement (bareName σ name) := by
  rcases bareName_eq σ name with same | fixed
  · rw [same]
    exact ⟨flat, leads⟩
  · exact fixedTexts_spelled _ fixed

variable {t : Token} {σ : Symbols} {ts : List Token} {text : String}

theorem flat_spelling {after : List Token} (flat : Flat t.text) :
    Flat (spelling σ mode before t after) := by
  have flatDigits : Flat (String.ofList (t.text.toList.drop 2)) :=
    flat_ofList_of_subset flat fun c mem => List.mem_of_mem_drop mem
  unfold spelling
  repeat' split
  case h_1 | h_2 | h_3 => exact (flat_append ..).2 ⟨flat_text rfl, flatDigits⟩
  all_goals first | exact flat | exact flat_text rfl

theorem all_argumentList? {P : Token → Prop} {inside : List Token} {close : Token}
    (all : ∀ t ∈ ts, P t) (found : argumentList? ts = some (inside, close, rest)) :
    (∀ t ∈ inside, P t) ∧ ∀ t ∈ rest, P t := by
  cases ts with
  | nil => simp [argumentList?] at found
  | cons first more =>
    simp only [argumentList?] at found
    split at found
    · rw [← closeParen?_append found] at all
      exact ⟨fun t mem => all t (by simp [mem]), fun t mem => all t (by simp [mem])⟩
    · simp at found

theorem mem_of_mem_splitPieces {depth : Int} (mem : piece ∈ splitPieces depth ts)
    (inside : t ∈ piece) : t ∈ ts := by
  induction ts generalizing depth piece with
  | nil => simp_all [splitPieces]
  | cons first rest ih =>
    simp only [splitPieces] at mem
    split at mem
    · rcases List.mem_cons.1 mem with rfl | later
      · simp at inside
      · exact List.mem_cons_of_mem _ (ih later inside)
    · cases eq : splitPieces (depthAcross depth first) rest with
      | nil =>
        simp only [eq, List.mem_singleton] at mem
        simp_all
      | cons head more =>
        simp only [eq, List.mem_cons] at mem
        rcases mem with rfl | later
        · rcases List.mem_cons.1 inside with rfl | tail
          · exact List.mem_cons_self
          · exact List.mem_cons_of_mem _ (ih (eq ▸ List.mem_cons_self) tail)
        · exact List.mem_cons_of_mem _ (ih (eq ▸ List.mem_cons_of_mem _ later) inside)

theorem mem_of_mem_splitArguments (mem : piece ∈ splitArguments ts) (inside : t ∈ piece) :
    t ∈ ts := by
  unfold splitArguments at mem
  split at mem
  · simp at mem
  · exact mem_of_mem_splitPieces mem inside

structure Tokenwise (σ : Symbols) (Q : List Char → List Char → String → Prop)
    (L : List Char → List Char → List Token → Prop) : Prop extends Spelling Q Q where
  trimmed : ∀ {a : String}, Q [] [] a → Whole Q (trim a)
  bounds : ∀ entry ∈ σ.bounds, ∀ bound ∈ entry.2, Whole Q bound
  nil : ∀ {i j : List Char}, L i j [] → i = j
  gap : ∀ {i j : List Char} {t : Token} {rest : List Token}, L i j (t :: rest) → Whole Q t.gap
  word : ∀ {i j : List Char} {t : Token} {rest : List Token}, L i j (t :: rest) →
    t.isWord = true → L i j rest ∧ Whole Q t.text ∧ Whole Q (bareName σ t.text)
  spelled : ∀ {i k : List Char} {t : Token} {rest : List Token}, L i k (t :: rest) →
    ∃ j, L j k rest ∧ ∀ mode before after, Q i j (Cpp.spelling σ mode before t after)
  list : ∀ {i j : List Char} {ts inside rest : List Token} {close : Token}, L i j ts →
    argumentList? ts = some (inside, close, rest) → L [] [] inside ∧ L i j rest
  piece : ∀ {ts piece : List Token}, L [] [] ts → piece ∈ splitArguments ts → L [] [] piece

theorem Tokenwise.gapText (tokens : Tokenwise σ Q L) {i j : List Char} (all : L i j (t :: rest)) :
    Whole Q (gapText before t) := by
  unfold Cpp.gapText
  repeat' split
  · exact fun _ => tokens.literal rfl rfl
  · exact fun _ => tokens.literal rfl rfl
  · exact tokens.gap all

theorem Tokenwise.write (tokens : Tokenwise σ Q L) (mode : Mode) (before ts : List Token)
    (i j : List Char) (all : L i j ts) : Q i j (write σ mode before ts) := by
  fun_induction Cpp.write σ mode before ts generalizing i j with
  | case1 =>
    obtain rfl := tokens.nil all
    exact tokens.literal rfl rfl
  | case2 mode before t gap new =>
    obtain ⟨rest, -⟩ := tokens.word all (by rw [Token.isWord, beq_iff_eq.1 new]; rfl)
    obtain rfl := tokens.nil rest
    exact tokens.append (tokens.gapText all).here (tokens.literal rfl rfl)
  | case3 mode before t gap new object after word inside close tail list inner later =>
    obtain ⟨rest, -⟩ := tokens.word all (by rw [Token.isWord, beq_iff_eq.1 new]; rfl)
    obtain ⟨rest, named, -⟩ := tokens.word rest word
    obtain ⟨within, behind⟩ := tokens.list rest list
    have arguments := tokens.trimmed (inner _ _ within)
    exact tokens.append (tokens.append (tokens.append (tokens.append (tokens.append (tokens.append
      (tokens.gapText all).here (tokens.literal rfl rfl)) named.here) (tokens.literal rfl rfl))
      arguments.here) (tokens.literal rfl rfl)) (later _ _ behind)
  | case4 mode before t gap new object after word list later =>
    obtain ⟨rest, -⟩ := tokens.word all (by rw [Token.isWord, beq_iff_eq.1 new]; rfl)
    obtain ⟨rest, named, -⟩ := tokens.word rest word
    exact tokens.append (tokens.append (tokens.append (tokens.append (tokens.gapText all).here
      (tokens.literal rfl rfl)) named.here) (tokens.literal rfl rfl)) (later _ _ rest)
  | case5 mode before t gap new object after word later =>
    obtain ⟨rest, -⟩ := tokens.word all (by rw [Token.isWord, beq_iff_eq.1 new]; rfl)
    exact tokens.append (tokens.append (tokens.gapText all).here (tokens.literal rfl rfl))
      (later _ _ rest)
  | case6 mode before t rest gap new word isMember list later =>
    obtain ⟨rest, named, bare⟩ := tokens.word all (Bool.and_eq_true_iff.1 word).1
    have name : Whole Q (if isMember then t.text else bareName σ t.text) := by
      split
      · exact named
      · exact bare
    exact tokens.append (tokens.append (tokens.gapText all).here name.here) (later _ _ rest)
  | case7 mode before t rest gap new word isMember inside close tail list text inner values later =>
    obtain ⟨rest, named, -⟩ := tokens.word all (Bool.and_eq_true_iff.1 word).1
    obtain ⟨within, behind⟩ := tokens.list rest list
    have arguments := tokens.trimmed (inner _ _ within)
    -- each argument is written by itself
    have each (use : Nat → Mode) (same : ∀ i, use i = if _ : (mode == .target) = true then .value
        else argumentMode (lower t.text) (splitArguments inside).length i) :
        ∀ v ∈ (splitArguments inside).attach.mapIdx
          (fun i piece => trim (Cpp.write σ (use i) [] piece.1)), Whole Q v := by
      intro v mem
      obtain ⟨i, _, rfl⟩ := List.mem_mapIdx.1 mem
      rw [same]
      exact tokens.trimmed
        (values i _ _ _ (tokens.piece within (splitArguments inside).attach[i].2))
    have call : Whole Q text := by
      unfold text
      split
      · exact fun _ => tokens.append (tokens.append (tokens.append named.here
          (tokens.literal rfl rfl)) arguments.here) (tokens.literal rfl rfl)
      · split
        · rename_i target
          exact tokens.indexed named (each _ fun _ => by rw [dif_pos target])
        · rename_i target
          exact tokens.namedCall tokens.bounds named
            (each _ fun _ => by rw [dif_neg target])
    exact tokens.append (tokens.append (tokens.gapText all).here call.here) (later _ _ behind)
  | case8 mode before t rest gap new word later =>
    obtain ⟨k, rest, spelled⟩ := tokens.spelled all
    exact tokens.append (tokens.append (tokens.gapText all).here (spelled ..)) (later _ _ rest)

theorem flatTokens (flatSymbols : σ.Flat) :
    Tokenwise σ (fun _ _ => Flat) fun i j ts => i = j ∧ ∀ t ∈ ts, t.Clean where
  toSpelling := flatSpelling
  trimmed flat _ := flat_trim flat
  bounds entry mem bound here _ := flatSymbols entry mem bound here
  nil all := all.1
  gap all _ := (all.2 _ List.mem_cons_self).gap
  word := by
    rintro i _ t rest ⟨rfl, clean⟩ word
    obtain ⟨here, others⟩ := List.forall_mem_cons.1 clean
    have leads := leadsStatement_of_named (here.named word)
    exact ⟨⟨rfl, others⟩, fun _ => here.text, fun _ => (bareName_spelled σ here.text leads).1⟩
  spelled := by
    rintro i _ t rest ⟨rfl, clean⟩
    obtain ⟨here, others⟩ := List.forall_mem_cons.1 clean
    exact ⟨i, ⟨rfl, others⟩, fun _ _ _ => flat_spelling here.text⟩
  list all found :=
    have ⟨inside, rest⟩ := all_argumentList? all.2 found
    ⟨⟨rfl, inside⟩, all.1, rest⟩
  piece all mem := ⟨rfl, fun t within => all.2 t (mem_of_mem_splitArguments mem within)⟩

theorem flat_expression (flatSymbols : σ.Flat) (mode : Mode) (flat : Flat text) :
    Flat (expression σ mode text) :=
  flat_trim ((flatTokens flatSymbols).write mode [] _ [] []
    ⟨rfl, fun _ mem => Token.clean_of_mem_ofLine flat mem⟩)

theorem flat_value (flatSymbols : σ.Flat) (flat : Flat e.text) : Flat (value σ e) :=
  flat_expression flatSymbols .value flat

theorem flat_condition (flatSymbols : σ.Flat) (flat : Flat e.text) : Flat (condition σ e) :=
  flat_expression flatSymbols .condition flat

theorem leadsStatement_write (clean : t.Clean) (word : t.isWord = true)
    (plain : mode = .target ∨ argumentList? rest = none) :
    LeadsStatement (write σ mode [] (t :: rest)) := by
  have leads := leadsStatement_of_named (clean.named word)
  have noGap (text : String) : gapText [] t ++ text = text := by simp [gapText]
  unfold write
  simp only [noGap]
  split
  · repeat' split
    all_goals
      repeat apply leadsStatement_append
      exact leadsStatement_ofList (by decide)
  · split
    · split
      · simp only [List.head?_nil, Option.any_none, Bool.false_eq_true, if_false]
        exact leadsStatement_append _ (bareName_spelled σ clean.text leads).2
      · rename_i inside close tail found
        obtain rfl : mode = .target := by simpa [found] using plain
        exact leadsStatement_append _ (leadsStatement_append _ leads)
    · rename_i operator
      apply leadsStatement_append
      have kind : isOperatorWord t.kind = true := by simpa [word] using operator
      unfold isOperatorWord at kind
      split at kind
      case h_7 => simp at kind
      all_goals
        rename_i same
        simp only [spelling, same]
        exact leadsStatement_ofList (by decide)

theorem leadsStatement_target (σ : Symbols) (flat : Flat text) (named : Named text) :
    LeadsStatement (target σ text) := by
  obtain ⟨t, rest, line, word⟩ := Token.ofLine_of_named named
  have clean := Token.clean_of_mem_ofLine (t := t) flat (by simp [line])
  rw [target, expression, line]
  exact leadsStatement_trim (leadsStatement_write clean word (Or.inl rfl))

theorem leadsStatement_calledName (σ : Symbols) {name : String} (flat : Flat name)
    (named : Named name) (plain : '(' ∉ name.toList) :
    LeadsStatement (value σ (Expr.ofText name)) := by
  have flatText : Flat (trim name) := flat_trim flat
  have namedText : Named (trim name) := named_trim named
  have plainText : '(' ∉ (trim name).toList := fun mem => plain (mem_of_mem_trim mem)
  obtain ⟨t, rest, line, word⟩ := Token.ofLine_of_named namedText
  have clean := Token.clean_of_mem_ofLine (t := t) flatText (by simp [line])
  have noList : argumentList? rest = none := by
    cases rest with
    | nil => rfl
    | cons u more =>
      have other : u.kind ≠ .symbol .leftParen := by
        intro paren
        exact plainText (Token.paren_mem_of_mem_ofLine (t := u) (by simp [line]) paren)
      simp [argumentList?, other]
  rw [value, expression, Expr.ofText, line]
  exact leadsStatement_trim (leadsStatement_write clean word (Or.inr noList))

end Cpp

end BasicSketch
