import BasicSketch.Proofs.FixedText
import BasicSketch.Proofs.LintedLines
import Mathlib.Data.List.Nodup

set_option autoImplicit false

/-! What the linter finds in a text that a quick fix was applied to. -/

namespace BasicSketch.Lint

open Text

/-! Directives. -/

def Undirected (line : String) : Prop := disabledInFile? line = none ∧ disabledBelow? line = none

theorem directiveHere?_append {word cs : List Char} (gap : List Char)
    (absent : directiveHere? word (cs ++ gap) = none) : directiveHere? word cs = none := by
  by_contra found
  simp only [directiveHere?, ite_eq_right_iff, reduceCtorEq, imp_false, not_not,
    Bool.and_eq_true, beq_iff_eq, Bool.not_eq_true', List.isEmpty_eq_false_iff] at absent found
  obtain ⟨⟨spelled, blank⟩, rule⟩ := found
  have long : word.length ≤ cs.length := by
    have size := congrArg List.length spelled
    rw [List.length_map, List.length_take] at size
    omega
  have dark : dropBlanks (cs.drop word.length) ≠ [] := fun empty => by simp [empty] at rule
  apply absent
  rw [List.take_append_of_le_length long, List.drop_append_of_le_length long,
    dropBlanks_append_of_ne_nil gap dark]
  refine ⟨⟨spelled, ?_⟩, ?_⟩
  · cases rest : cs.drop word.length with
    | nil => simp [rest] at blank
    | cons c more => simpa [rest] using blank
  · obtain ⟨c, more, eq⟩ := List.exists_cons_of_ne_nil dark
    rw [eq] at rule ⊢
    cases here : isRuleChar c <;> simp [here] at rule ⊢

theorem directive?_append {word cs : List Char} (gap : List Char)
    (absent : directive? word (cs ++ gap) = none) : directive? word cs = none := by
  induction cs with
  | nil => rfl
  | cons c rest ih =>
    obtain ⟨here, there⟩ := Option.or_eq_none_iff.1 absent
    rw [directive?, directiveHere?_append gap here, ih there]
    rfl

theorem Undirected.physical {line : String} (free : Undirected line) :
    Undirected (physical line) := by
  obtain ⟨gap, -, eq⟩ := exists_chomped line.toList
  have chars : (Text.physical line).toList = chomp line.toList := String.toList_ofList
  unfold Undirected disabledInFile? disabledBelow? at free ⊢
  rw [← eq] at free
  rw [chars]
  exact ⟨directive?_append gap free.1, directive?_append gap free.2⟩

theorem mem_of_directiveHere? {word cs : List Char} (found : directiveHere? word cs ≠ none) :
    ∀ c ∈ word, ∃ d ∈ cs, foldCase d = c := by
  simp only [directiveHere?, ne_eq, ite_eq_right_iff, reduceCtorEq, imp_false, not_not,
    Bool.and_eq_true, beq_iff_eq] at found
  rw [← found.1.1]
  intro c mem
  obtain ⟨d, taken, same⟩ := List.mem_map.1 mem
  exact ⟨d, List.mem_of_mem_take taken, same⟩

theorem undirected_of_not_mem {line : String} (absent : ':' ∉ line.toList) : Undirected line := by
  have folded {c : Char} (same : foldCase c = ':') : c = ':' := by
    unfold foldCase at same
    split at same
    · cases same
    split at same
    · cases same
    · exact (toLower_eq_iff rfl).1 same
  have all (word : List Char) (colon : ':' ∈ word) (cs : List Char) (absent : ':' ∉ cs) :
      directive? word cs = .none := by
    induction cs with
    | nil => rfl
    | cons c rest ih =>
      have here : directiveHere? word (c :: rest) = .none := by
        by_contra found
        obtain ⟨d, mem, same⟩ := mem_of_directiveHere? found ':' colon
        exact absent (folded same ▸ mem)
      rw [directive?, here, ih fun mem => absent (List.mem_cons_of_mem _ mem)]
      rfl
  exact ⟨all _ (by decide) _ absent, all _ (by decide) _ absent⟩

theorem Undirected.commented {line : String} (free : Undirected line) :
    Undirected (Fix.commented line) := by
  have chars : (Fix.commented line).toList = '\x27' :: ' ' :: line.toList := by
    simp [Fix.commented]
  unfold Undirected disabledInFile? disabledBelow? at free ⊢
  rw [chars]
  exact free

/-! Lines with other numbers on them. -/

def Finding.move (σ : Nat → Nat) (f : Finding) : Finding := { f with line := σ f.line }

namespace CodeLine

def numbered (number : Nat) : List String → List CodeLine
  | [] => []
  | line :: rest => ⟨number, line, codeTokens line⟩ :: numbered (number + 1) rest

theorem ofText_eq (text : String) : ofText text = numbered 1 (lines text) := by
  have all (ls : List String) (number : Nat) :
      (ls.mapIdx fun k line => (⟨number + k, line, codeTokens line⟩ : CodeLine)) =
        numbered number ls := by
    induction ls generalizing number with
    | nil => rfl
    | cons line rest ih =>
      rw [List.mapIdx_cons, numbered, ← ih]
      simp only [Nat.add_comm, Nat.add_left_comm]
      rfl
  rw [← all]
  simp only [ofText, Nat.add_comm]

theorem numbered_append (number : Nat) (ls ms : List String) :
    numbered number (ls ++ ms) = numbered number ls ++ numbered (number + ls.length) ms := by
  induction ls generalizing number with
  | nil => rfl
  | cons line rest ih =>
    rw [List.cons_append, numbered, ih, numbered, List.cons_append, List.length_cons,
      Nat.add_assoc, Nat.add_comm 1]

theorem exists_of_mem_numbered {number : Nat} {ls : List String} {l : CodeLine}
    (mem : l ∈ numbered number ls) :
    ∃ before line after, ls = before ++ line :: after ∧
      l = ⟨number + before.length, line, codeTokens line⟩ := by
  induction ls generalizing number with
  | nil => cases mem
  | cons line rest ih =>
    rcases List.mem_cons.1 mem with rfl | later
    · exact ⟨[], line, rest, rfl, rfl⟩
    · obtain ⟨before, line', after, rfl, rfl⟩ := ih later
      refine ⟨line :: before, line', after, rfl, ?_⟩
      rw [List.length_cons, Nat.add_right_comm, Nat.add_assoc]

theorem of_mem_numbered {number : Nat} {ls : List String} {l : CodeLine}
    (mem : l ∈ numbered number ls) : number ≤ l.number ∧ l.number < number + ls.length := by
  obtain ⟨before, line, after, rfl, rfl⟩ := exists_of_mem_numbered mem
  simp

/-- A change of lines that changes what is found on them by `m`, for the rules with a fix. -/
structure Keeps (m : Finding → Finding) (φ : CodeLine → CodeLine) : Prop where
  finding : ∀ l rule column message,
    (φ l).finding rule column message = m (l.finding rule column message)
  draw : ∀ l, (debugDraw? (φ l).tokens).map Token.start = (debugDraw? l.tokens).map Token.start
  name : ∀ word l, nameAfter? word (φ l).tokens = nameAfter? word l.tokens
  delay : ∀ l, delay? (φ l).tokens = delay? l.tokens

def renumber (σ : Nat → Nat) (l : CodeLine) : CodeLine := { l with number := σ l.number }

theorem keeps_renumber (σ : Nat → Nat) : Keeps (Finding.move σ) (renumber σ) :=
  ⟨fun _ _ _ _ => rfl, fun _ => rfl, fun _ _ => rfl, fun _ => rfl⟩

theorem map_renumber {σ : Nat → Nat} {number number' : Nat} {ls : List String}
    (moves : ∀ i < ls.length, σ (number + i) = number' + i) :
    (numbered number ls).map (renumber σ) = numbered number' ls := by
  induction ls generalizing number number' with
  | nil => rfl
  | cons line rest ih =>
    have here := moves 0 (by simp)
    have there := @ih (number + 1) (number' + 1) fun i inside => by
      have later := moves (i + 1) (by simpa using inside)
      rw [Nat.add_right_comm, Nat.add_assoc, later]
      omega
    rw [numbered, List.map_cons, there, numbered, renumber]
    simp_all

/-- A line as the rules see it, without blanks and tokens of no known kind at its end. -/
def bare (l : CodeLine) : CodeLine := { l with source := trim l.source, tokens := core l.tokens }

theorem keeps_bare : Keeps id bare where
  finding l _ _ _ := by rw [CodeLine.finding, bare, trim_trim]; rfl
  draw l := congrArg _ (debugDraw?_core l.tokens)
  name word l := nameAfter?_core word l.tokens
  delay l := delay?_core l.tokens

theorem map_numbered_congr {α β : Type} {φ : CodeLine → β} {view : String → α} (g : Nat → α → β)
    (by_view : ∀ n line, φ ⟨n, line, codeTokens line⟩ = g n (view line)) {ls ms : List String}
    (number : Nat) (same : ls.map view = ms.map view) :
    (numbered number ls).map φ = (numbered number ms).map φ := by
  induction ls generalizing number ms with
  | nil =>
    obtain rfl := List.map_eq_nil_iff.1 same.symm
    rfl
  | cons l rest ih =>
    obtain ⟨m, more, rfl, here, there⟩ := List.map_eq_cons_iff.1 same.symm
    rw [numbered, numbered, List.map_cons, List.map_cons, ih _ there.symm, by_view, by_view, here]

end CodeLine

open CodeLine

/-! Rules that look at one line. -/

structure PerLine (look : CodeLine → List Finding) : Prop where
  move : ∀ {m φ}, Keeps m φ → ∀ l, look (φ l) = (look l).map m
  line : ∀ l, ∀ f ∈ look l, f.line = l.number
  one : ∀ l, (look l).length ≤ 1

theorem perLine_debugDraws : PerLine debugDraws where
  move {m φ} keeps l := by
    have draw := keeps.draw l
    rw [debugDraws, debugDraws]
    generalize debugDraw? l.tokens = old at draw ⊢
    generalize debugDraw? (φ l).tokens = new at draw ⊢
    cases old <;> cases new <;> simp_all [keeps.finding]
  line l f mem := by
    obtain ⟨t, -, rfl⟩ := List.mem_map.1 mem
    rfl
  one l := by
    rw [debugDraws, List.length_map]
    cases debugDraw? l.tokens <;> simp

theorem perLine_blockingDelays : PerLine blockingDelays where
  move keeps l := by
    rw [blockingDelays, keeps.delay, blockingDelays]
    cases delay? l.tokens with
    | none => rfl
    | some d =>
      by_cases long : blockingFrom ≤ d.milliseconds <;> simp [long, keeps.finding]
  line l f mem := by
    obtain ⟨d, -, found⟩ := List.mem_filterMap.1 mem
    split at found
    · obtain rfl := Option.some.inj found
      rfl
    · cases found
  one l := by
    rw [blockingDelays]
    refine Nat.le_trans (List.length_filterMap_le _ _) ?_
    cases delay? l.tokens <;> simp

namespace PerLine

variable {look : CodeLine → List Finding}

theorem flatMap_map (per : PerLine look) {m : Finding → Finding} {φ : CodeLine → CodeLine}
    (keeps : Keeps m φ) (ls : List CodeLine) :
    (ls.map φ).flatMap look = (ls.flatMap look).map m := by
  rw [List.flatMap_map, List.map_flatMap]
  exact List.flatMap_congr fun l _ => per.move keeps l

theorem replaced (per : PerLine look) {σ : Nat → Nat} {before after lines : List String}
    {line : String} {d : Finding}
    (found : d ∈ look ⟨before.length + 1, line, codeTokens line⟩)
    (quiet : ∀ l ∈ numbered (before.length + 1) lines, look l = [])
    (stays : ∀ i ≤ before.length + 1, σ i = i)
    (moves : ∀ i, σ (before.length + 2 + i) = before.length + 1 + lines.length + i) :
    (numbered 1 (before ++ lines ++ after)).flatMap look =
      (((numbered 1 (before ++ line :: after)).flatMap look).filter (· != d)).map
        (Finding.move σ) := by
  have line_d := per.line _ d found
  have apart {number : Nat} {ls : List String}
      (outside : ∀ l ∈ numbered number ls, l.number ≠ before.length + 1) :
      ((numbered number ls).flatMap look).filter (· != d) = (numbered number ls).flatMap look := by
    refine List.filter_eq_self.2 fun f mem => bne_iff_ne.2 ?_
    obtain ⟨l, inside, here⟩ := List.mem_flatMap.1 mem
    rintro rfl
    exact outside l inside ((per.line l f here).symm.trans line_d)
  have only : (look ⟨before.length + 1, line, codeTokens line⟩).filter (· != d) = [] := by
    have one := per.one ⟨before.length + 1, line, codeTokens line⟩
    cases eq : look ⟨before.length + 1, line, codeTokens line⟩ with
    | nil => rfl
    | cons f rest =>
      rw [eq] at one found
      obtain rfl : rest = [] := by simpa using one
      simp [List.mem_singleton.1 found]
  have first := per.flatMap_map (keeps_renumber σ) (numbered 1 before)
  have second := per.flatMap_map (keeps_renumber σ) (numbered (before.length + 2) after)
  rw [map_renumber fun i inside => stays _ (by omega)] at first
  rw [map_renumber fun i _ => moves i] at second
  have absent : (numbered (before.length + 1) lines).flatMap look = [] :=
    List.flatMap_eq_nil_iff.2 quiet
  rw [numbered_append, numbered_append, numbered_append, numbered, List.flatMap_append,
    List.flatMap_append, List.flatMap_append, List.flatMap_cons, Nat.add_comm 1, absent,
    List.append_nil, List.filter_append, List.filter_append, only, List.nil_append,
    apart fun l mem => by have := of_mem_numbered mem; omega,
    apart fun l mem => by have := of_mem_numbered mem; omega, List.map_append, ← first, ← second]
  rw [List.length_append, ← Nat.add_assoc, Nat.add_comm 1]

end PerLine

/-! Sprites. -/

section Sprites

variable {created : List (String × CodeLine)} {ls : List CodeLine} {σ : Nat → Nat}
  {m : Finding → Finding} {φ : CodeLine → CodeLine}

theorem recordSprite_map (keeps : Keeps m φ) (created : List (String × CodeLine)) (l : CodeLine) :
    recordSprite (created.map (Prod.map id φ)) (φ l) =
      (recordSprite created l).map (Prod.map id φ) := by
  unfold recordSprite
  rw [keeps.name]
  split
  · rfl
  · simp only [List.any_map, Function.comp_def, Prod.map_fst, id_eq]
    split
    · simp only [List.map_map]
      refine List.map_congr_left fun entry _ => ?_
      simp only [Function.comp_def, Prod.map_fst, id_eq]
      split <;> rfl
    · simp

theorem foldl_recordSprite_map (keeps : Keeps m φ) (created : List (String × CodeLine)) :
    (ls.map φ).foldl recordSprite (created.map (Prod.map id φ)) =
      (ls.foldl recordSprite created).map (Prod.map id φ) := by
  induction ls generalizing created with
  | nil => rfl
  | cons l rest ih =>
    rw [List.map_cons, List.foldl_cons, recordSprite_map keeps, ih, List.foldl_cons]

theorem isDeleted_map (keeps : Keeps m φ) (sprite : String) :
    isDeleted (ls.map φ) sprite = isDeleted ls sprite := by
  simp [isDeleted, Function.comp_def, keeps.name]

def missing (entry : String × CodeLine) : Finding :=
  entry.2.finding .missingDelete 1 s!"Sprite {entry.1} created but no delete found"

/-- The sprites of a certain name that are missed. -/
def missed (keep : String → Bool) (ls : List CodeLine) : List Finding :=
  ((ls.foldl recordSprite []).filter fun e => !isDeleted ls e.1 && keep e.1).map missing

theorem missingDeletes_eq (ls : List CodeLine) : missingDeletes ls = missed (fun _ => true) ls := by
  simp only [missed, Bool.and_true]
  rfl

theorem missed_map (keeps : Keeps m φ) (keep : String → Bool) :
    missed keep (ls.map φ) = (missed keep ls).map m := by
  have created := @foldl_recordSprite_map ls m φ keeps []
  rw [List.map_nil] at created
  rw [missed, created, List.filter_map, List.map_map, missed, List.map_map]
  simp only [Function.comp_def, Prod.map_fst, id_eq, isDeleted_map keeps]
  exact List.map_congr_left fun entry _ => keeps.finding ..

structure Records (ls : List CodeLine) (created : List (String × CodeLine)) : Prop where
  once : (created.map Prod.fst).Nodup
  from_line : ∀ entry ∈ created, entry.2 ∈ ls ∧
    nameAfter? "CREATE_SPRITE" entry.2.tokens = some entry.1

theorem records_recordSprite (records : Records ls created) {l : CodeLine} (mem : l ∈ ls) :
    Records ls (recordSprite created l) := by
  unfold recordSprite
  split
  · exact records
  · rename_i name found
    split
    · refine ⟨?_, fun entry there => ?_⟩
      · rw [List.map_map]
        convert records.once using 1
        refine List.map_congr_left fun entry _ => ?_
        by_cases same : entry.1 = name <;> simp [same]
      · obtain ⟨old, inside, rfl⟩ := List.mem_map.1 there
        split
        · exact ⟨mem, found⟩
        · exact records.from_line old inside
    · rename_i new
      refine ⟨?_, fun entry there => ?_⟩
      · rw [List.map_append, List.nodup_append]
        refine ⟨records.once, by simp, fun key old _ here same => new ?_⟩
        obtain ⟨entry, inside, rfl⟩ := List.mem_map.1 old
        refine List.any_eq_true.2 ⟨entry, inside, ?_⟩
        simpa [same] using here
      · rcases List.mem_append.1 there with old | here
        · exact records.from_line entry old
        · rw [List.mem_singleton.1 here]
          exact ⟨mem, found⟩

theorem records_foldl (ls : List CodeLine) : Records ls (ls.foldl recordSprite []) :=
  List.foldlRecOn ls recordSprite ⟨by simp, by simp⟩ fun _ records _ mem =>
    records_recordSprite records mem

theorem missing_eq_iff {a b : String × CodeLine} (records : Records ls created) (mem : a ∈ created)
    (mem' : b ∈ created) : missing a = missing b ↔ a.1 = b.1 := by
  constructor
  · intro same
    have text := congrArg (String.toList ∘ Finding.message) same
    simpa [missing, CodeLine.finding, String.toList_inj] using text
  · intro same
    rw [List.inj_on_of_nodup_map records.once mem mem' same]

theorem missingDeletes_filter {name : String} {l : CodeLine}
    (entry : (name, l) ∈ ls.foldl recordSprite []) :
    (missingDeletes ls).filter (· != missing (name, l)) = missed (· != name) ls := by
  rw [missingDeletes_eq, missed, List.filter_map, List.filter_filter, missed]
  congr 1
  refine List.filter_congr fun e mem => ?_
  have same : (missing e != missing (name, l)) = (e.1 != name) := by
    rw [Bool.eq_iff_iff]
    simp [missing_eq_iff (records_foldl ls) mem entry]
  simp [same, Bool.and_comm]

theorem missingDeletes_insert {front behind : List CodeLine} {name : String} {l : CodeLine}
    (silent : nameAfter? "CREATE_SPRITE" l.tokens = none)
    (deletes : nameAfter? "SPRITE_DELETE" l.tokens = some name) :
    missingDeletes (front ++ l :: behind) = missed (· != name) (front ++ behind) := by
  have created (before : List (String × CodeLine)) : recordSprite before l = before := by
    rw [recordSprite, silent]
  rw [missingDeletes_eq, missed, missed]
  simp only [isDeleted, List.foldl_append, List.foldl_cons, created, List.any_append, List.any_cons,
    deletes]
  congr 1
  refine List.filter_congr fun e _ => ?_
  rcases eq_or_ne name e.1 with rfl | other
  · simp
  · simp [beq_eq_false_iff_ne.2 other, bne_iff_ne.2 other.symm]

theorem missingDeletes_inserted {before after : List String} {line name : String} {l : CodeLine}
    (named : nameAfter? "CREATE_SPRITE" (codeTokens line) = some name)
    (entry : (name, l) ∈ (numbered 1 (before ++ line :: after)).foldl recordSprite [])
    (stays : ∀ i ≤ before.length + 1, σ i = i)
    (moves : ∀ i, σ (before.length + 2 + i) = before.length + 3 + i) :
    missingDeletes (numbered 1 (before ++ [line, "SPRITE_DELETE " ++ name] ++ after)) =
      ((missingDeletes (numbered 1 (before ++ line :: after))).filter
        (· != missing (name, l))).map (Finding.move σ) := by
  rw [missingDeletes_filter entry, ← missed_map (keeps_renumber σ)]
  have parted : (numbered 1 (before ++ line :: after)).map (renumber σ) =
      numbered 1 (before ++ [line]) ++ numbered (before.length + 3) after := by
    have second := @map_renumber σ _ _ after fun i _ => moves i
    rw [List.append_cons, numbered_append, List.map_append,
      map_renumber fun i inside => stays _ (by simp at inside; omega), ← second]
    simp [Nat.add_comm 1]
  have whole : numbered 1 (before ++ [line, "SPRITE_DELETE " ++ name] ++ after) =
      numbered 1 (before ++ [line]) ++
        ⟨before.length + 2, "SPRITE_DELETE " ++ name, codeTokens ("SPRITE_DELETE " ++ name)⟩ ::
          numbered (before.length + 3) after := by
    rw [numbered_append, List.append_cons before line, numbered_append 1]
    simp [numbered, Nat.add_comm 1]
  rw [parted, whole]
  refine missingDeletes_insert ?_ ?_
  · rw [codeTokens_delete named]
    rfl
  · rw [codeTokens_delete named]
    rfl

end Sprites

/-! What a rule finds in a text. -/

def ofRule (rule : Rule) (ls : List CodeLine) : List Finding :=
  (allFindings ls).filter (·.rule == rule)

theorem filter_rule {fs : List Finding} {own : Rule} (all : ∀ f ∈ fs, f.rule = own) (rule : Rule) :
    fs.filter (·.rule == rule) = if own = rule then fs else [] := by
  split
  · refine List.filter_eq_self.2 fun f mem => ?_
    simp_all
  · refine List.filter_eq_nil_iff.2 fun f mem => ?_
    simp_all

theorem ofRule_eq (ls : List CodeLine) :
    ofRule .debugDraw ls = ls.flatMap debugDraws ∧
      ofRule .blockingDelay ls = ls.flatMap blockingDelays ∧
      ofRule .missingDelete ls = missingDeletes ls := by
  have draws (l : CodeLine) : ∀ f ∈ debugDraws l, f.rule = .debugDraw := by
    simp +contextual [debugDraws, CodeLine.finding]
  have bauds (l : CodeLine) : ∀ f ∈ suspiciousBauds l, f.rule = .suspiciousBaud := by
    simp +contextual [suspiciousBauds, CodeLine.finding]
  have unused : ∀ f ∈ unusedVariables ls, f.rule = .unusedVariable := by
    intro f mem
    obtain ⟨l, -, found⟩ := List.mem_filterMap.1 mem
    obtain ⟨name, -, found⟩ := Option.bind_eq_some_iff.1 found
    split at found
    · cases found
    · obtain rfl := Option.some.inj found
      rfl
  have misses : ∀ f ∈ missingDeletes ls, f.rule = .missingDelete := by
    intro f mem
    obtain ⟨entry, -, rfl⟩ := List.mem_map.1 mem
    rfl
  have delays (l : CodeLine) : ∀ f ∈ blockingDelays l, f.rule = .blockingDelay := by
    intro f mem
    obtain ⟨d, -, found⟩ := List.mem_filterMap.1 mem
    split at found
    · obtain rfl := Option.some.inj found
      rfl
    · cases found
  have nothing : ls.flatMap (fun _ => ([] : List Finding)) = [] :=
    List.flatMap_eq_nil_iff.2 fun _ _ => rfl
  simp only [ofRule, allFindings, List.filter_append, List.filter_flatMap, filter_rule (draws _),
    filter_rule (bauds _), filter_rule unused, filter_rule misses, filter_rule (delays _)]
  simp [nothing]

theorem ofRule_map {rule : Rule} {fix : Fix} (offered : fix ∈ Fix.offered rule)
    {m : Finding → Finding} {φ : CodeLine → CodeLine} (keeps : Keeps m φ) (ls : List CodeLine) :
    ofRule rule (ls.map φ) = (ofRule rule ls).map m := by
  obtain ⟨draws, delays, misses⟩ := ofRule_eq ls
  obtain ⟨draws', delays', misses'⟩ := ofRule_eq (ls.map φ)
  cases rule with
  | suspiciousBaud | unusedVariable => cases offered
  | debugDraw => rw [draws, draws', perLine_debugDraws.flatMap_map keeps]
  | blockingDelay => rw [delays, delays', perLine_blockingDelays.flatMap_map keeps]
  | missingDelete => rw [misses, misses', missingDeletes_eq, missed_map keeps, missingDeletes_eq]

theorem ofRule_congr {rule : Rule} {fix : Fix} (offered : fix ∈ Fix.offered rule)
    {ls ms : List CodeLine} (same : ls.map bare = ms.map bare) :
    ofRule rule ls = ofRule rule ms := by
  have left := ofRule_map offered keeps_bare ls
  rw [same, ofRule_map offered keeps_bare ms] at left
  simpa using left.symm

theorem ofRule_blank {rule : Rule} {fix : Fix} (offered : fix ∈ Fix.offered rule)
    (ls : List CodeLine) (number : Nat) :
    ofRule rule (ls ++ numbered number [""]) = ofRule rule ls := by
  obtain ⟨draws, delays, misses⟩ := ofRule_eq ls
  obtain ⟨draws', delays', misses'⟩ := ofRule_eq (ls ++ numbered number [""])
  cases rule with
  | suspiciousBaud | unusedVariable => cases offered
  | debugDraw =>
    rw [draws, draws', List.flatMap_append]
    exact List.append_nil _
  | blockingDelay =>
    rw [delays, delays', List.flatMap_append]
    exact List.append_nil _
  | missingDelete =>
    rw [misses, misses', missingDeletes, missingDeletes, List.foldl_append]
    have absent (sprite : String) : isDeleted (ls ++ numbered number [""]) sprite =
        isDeleted ls sprite := by
      rw [isDeleted, List.any_append]
      exact Bool.or_false _
    simp only [absent]
    rfl

/-- A line as the rules see it. -/
def seen (line : String) : String × List Token := (trim line, core (codeTokens line))

theorem seen_physical (line : String) : seen (physical line) = seen line := by
  obtain ⟨gap, white, eq⟩ := exists_chomped line.toList
  have trimmed : trim (physical line) = trim line := by
    have chars : (physical line).toList = chomp line.toList := String.toList_ofList
    rw [trim, chars, ← trim_append white, eq]
    rfl
  rw [seen, seen, core_physical, trimmed]

theorem splitLines_ended {front : List String} (flat : ∀ l ∈ front, Flat l) (cs : List Char) :
    (splitLines (ended front ++ cs)).map String.ofList =
      front.map physical ++ (splitLines cs).map String.ofList := by
  induction front with
  | nil => rfl
  | cons l rest ih =>
    obtain ⟨here, there⟩ := List.forall_mem_cons.1 flat
    have chars : ended (l :: rest) ++ cs = l.toList ++ '\n' :: (ended rest ++ cs) := by
      simp [ended]
    rw [chars, splitLines_append here, List.map_cons, ih there]
    rfl

theorem lines_joinLike (text : String) {ls : List String} (flat : ∀ l ∈ ls, Flat l) :
    ∃ xs, (∀ x ∈ xs, x ∈ ls ∨ x ∈ ls.map physical) ∧ xs.map seen = ls.map seen ∧
      (lines (Fix.joinLike text ls) = xs ∨ lines (Fix.joinLike text ls) = xs ++ [""] ∨
        lines (Fix.joinLike text ls) ++ [""] = xs) := by
  have again (ms : List String) : (ms.map physical).map seen = ms.map seen := by
    simp [seen_physical]
  rw [lines, Fix.toList_joinLike]
  rcases List.eq_nil_or_concat ls with rfl | ⟨front, last, rfl⟩
  · refine ⟨[], by simp, rfl, ?_⟩
    split
    · exact .inr (.inl rfl)
    · exact .inl rfl
  · rw [List.concat_eq_append] at flat ⊢
    obtain ⟨flatFront, flatLast⟩ := List.forall_mem_append.1 flat
    have flatLast : '\n' ∉ last.toList := flatLast last List.mem_cons_self
    rw [toList_intercalate_feed, List.append_assoc, List.append_assoc, splitLines_ended flatFront]
    by_cases ends : endsInFeed text.toList = true
    · refine ⟨(front ++ [last]).map physical, fun x mem => .inr mem, again _, .inl ?_⟩
      rw [if_pos ends, begun, List.flatMap_nil, List.nil_append, splitLines_append flatLast,
        List.map_append]
      rfl
    · rw [if_neg ends, begun, List.flatMap_nil, List.nil_append, List.append_nil]
      refine ⟨front.map physical ++ [last], ?_, ?_, ?_⟩
      · simp only [List.mem_append, List.map_append, List.mem_singleton]
        tauto
      · rw [List.map_append, again, List.map_append]
      · by_cases empty : last = ""
        · subst empty
          exact .inr (.inr (congrArg (· ++ [""]) (List.append_nil _)))
        · have filled : last.toList ≠ [] := fun absent => empty (String.toList_eq_nil_iff.1 absent)
          rw [splitLines_flat flatLast filled, List.map_singleton, String.ofList_toList]
          exact .inl rfl

theorem findings_of_undirected {text : String} (free : ∀ line ∈ lines text, Undirected line) :
    findings text = allFindings (ofText text) := by
  refine List.filter_eq_self.2 fun f _ => ?_
  rw [Bool.not_eq_true', suppresses, List.any_eq_false]
  intro l mem
  rw [ofText_eq] at mem
  obtain ⟨before, line, after, eq, rfl⟩ := exists_of_mem_numbered mem
  obtain ⟨inFile, below⟩ := free line (by simp [eq])
  simp [inFile, below]

def Fix.linesAdded : Fix → Int
  | .removeLine => -1
  | .commentLine => 0
  | .insertDelete => 1
  | .replaceWithEvery => 3

/-- The number that a line has behind a fix of the line `fixed`. -/
def Fix.shift (fix : Fix) (fixed number : Nat) : Nat :=
  if fixed < number then (number + fix.linesAdded).toNat else number

theorem Fix.length_replacement {fix : Fix} {snippet line : String} {replacement : List String}
    (applies : fix.replacement? snippet line = some replacement) :
    (replacement.length : Int) = 1 + fix.linesAdded := by
  cases fix with
  | removeLine | commentLine =>
    obtain rfl := Option.some.inj applies
    rfl
  | insertDelete | replaceWithEvery =>
    obtain ⟨_, -, rfl⟩ := Option.map_eq_some_iff.1 applies
    rfl

/-! The lines that fixes leave. -/

def Plain (line : String) : Prop := Flat line ∧ Undirected line

theorem plain_of_mem {text line : String} (free : ∀ line ∈ lines text, Undirected line)
    (mem : line ∈ lines text) : Plain line :=
  ⟨flat_of_mem_lines mem, free line mem⟩

theorem plain_of_chars {line : String}
    (chars : ∀ c ∈ line.toList, isNameChar c = true ∨ c ∈ [' ', '\x27', '$']) :
    Plain line := by
  have absent {c : Char} (odd : ¬ (isNameChar c = true ∨ c ∈ [' ', '\x27', '$'])) :
      c ∉ line.toList := fun mem => odd (chars c mem)
  exact ⟨absent (by decide), undirected_of_not_mem (absent (by decide))⟩

theorem Plain.commented {line : String} (plain : Plain line) : Plain (Fix.commented line) :=
  ⟨(flat_append _ _).2 ⟨by decide, plain.1⟩, plain.2.commented⟩

theorem plain_delete {line name : String}
    (named : nameAfter? "CREATE_SPRITE" (codeTokens line) = some name) :
    Plain ("SPRITE_DELETE " ++ name) := by
  refine plain_of_chars ?_
  rw [String.toList_append, List.forall_mem_append]
  refine ⟨forall_mem_of_all rfl, fun c mem => ?_⟩
  cases (created_name named).2 with
  | unclosed unknown => cases unknown
  | longest matched => exact (Token.word_chars rfl matched c mem).imp_right (by simp +contextual)

theorem quiet_every (n : Nat) :
    ∀ l ∈ [s!"Every {n} Do", "    ' move blocking code here", "End Do"],
      Plain l ∧ delay? (codeTokens l) = none := by
  have every : Plain s!"Every {n} Do" := by
    refine plain_of_chars ?_
    simp only [toString_text, String.toList_append, List.forall_mem_append]
    refine ⟨⟨forall_mem_of_all rfl, fun c mem => .inl ?_⟩, forall_mem_of_all rfl⟩
    exact Token.isNameChar_of_isDigit (isDigit_of_mem_nat n c mem)
  have hint : delay? (codeTokens "    ' move blocking code here") = none := by decide +kernel
  have stop : delay? (codeTokens "End Do") = none := by decide +kernel
  simp only [List.forall_mem_cons]
  exact ⟨⟨every, delay?_every n⟩, ⟨plain_of_chars (forall_mem_of_all rfl), hint⟩,
    ⟨plain_of_chars (forall_mem_of_all rfl), stop⟩, by simp⟩

theorem discharged_of_replaced {text : String} (free : ∀ line ∈ lines text, Undirected line)
    {before after replacement : List String} {line : String}
    (eq : lines text = before ++ line :: after) {d : Finding} (number : d.line = before.length + 1)
    {rule : Rule} {fix : Fix} (offered : fix ∈ Fix.offered rule)
    (applies : fix.replacement? d.snippet line = some replacement)
    (new : ∀ l ∈ replacement, Plain l)
    (result : ∀ σ : Nat → Nat, (∀ i ≤ before.length + 1, σ i = i) →
      (∀ i, σ (before.length + 2 + i) = before.length + 1 + replacement.length + i) →
      ofRule rule (numbered 1 (before ++ replacement ++ after)) =
        ((ofRule rule (numbered 1 (before ++ line :: after))).filter (· != d)).map
          (Finding.move σ)) :
    (findings (fix.apply d.line d.snippet text)).filter (·.rule == rule) =
      ((findings text).filter fun f => f.rule == rule && f != d).map
        (Finding.move (fix.shift d.line)) := by
  have fixed : fix.apply d.line d.snippet text =
      Fix.joinLike text (before ++ replacement ++ after) := by
    have here : lineAt? text d.line = some line := by
      rw [lineAt?, if_neg (by omega), eq, number]
      simp
    rw [Fix.apply_eq, here, Option.bind_some, applies, Option.map_some,
      Option.getD_some, eq, number]
    simp [List.drop_append, List.drop_eq_nil_of_le (Nat.le_succ before.length)]
  have all : ∀ l ∈ before ++ replacement ++ after, Plain l := by
    have old : ∀ l ∈ lines text, Plain l := fun l mem => plain_of_mem free mem
    rw [eq] at old
    simp only [List.forall_mem_append, List.forall_mem_cons] at old ⊢
    exact ⟨⟨old.1, new⟩, old.2.2⟩
  obtain ⟨xs, from_lines, same, shape⟩ := lines_joinLike text fun l mem => (all l mem).1
  have xsFree : ∀ x ∈ xs, Undirected x := by
    intro x mem
    rcases from_lines x mem with old | chomped
    · exact (all x old).2
    · obtain ⟨l, old, rfl⟩ := List.mem_map.1 chomped
      exact (all l old).2.physical
  have fixedFree : ∀ x ∈ lines (Fix.joinLike text (before ++ replacement ++ after)),
      Undirected x := by
    rcases shape with whole | longer | shorter
    · rwa [whole]
    · rw [longer]
      exact List.forall_mem_append.2 ⟨xsFree, by simp [undirected_of_not_mem]⟩
    · rw [← shorter] at xsFree
      exact fun x mem => xsFree x (List.mem_append_left _ mem)
  have ruled : ofRule rule (numbered 1 (lines (Fix.joinLike text (before ++ replacement ++ after))))
      = ofRule rule (numbered 1 (before ++ replacement ++ after)) := by
    rw [← ofRule_congr offered
      (map_numbered_congr (fun n s => ⟨n, s.1, s.2⟩) (fun _ _ => rfl) 1 same)]
    rcases shape with whole | longer | shorter
    · rw [whole]
    · rw [longer, numbered_append, ofRule_blank offered]
    · rw [← shorter, numbered_append, ofRule_blank offered]
  have size := Fix.length_replacement applies
  rw [fixed, findings_of_undirected fixedFree, findings_of_undirected free, ofText_eq, ofText_eq,
    ← ofRule, ruled, result (fix.shift d.line) (fun i le => if_neg (by omega)) (fun i => by
      rw [Fix.shift, if_pos (by omega)]
      omega), eq, ofRule, List.filter_filter]
  simp only [Bool.and_comm]

theorem PerLine.discharged {look : CodeLine → List Finding} (per : PerLine look) {rule : Rule}
    (ruled : ∀ ls, ofRule rule ls = ls.flatMap look) {text : String}
    (free : ∀ line ∈ lines text, Undirected line) {d : Finding}
    (found : d ∈ ofRule rule (numbered 1 (lines text))) {fix : Fix}
    (offered : fix ∈ Fix.offered rule)
    (hushed : ∀ number line, d ∈ look ⟨number, line, codeTokens line⟩ → Plain line →
      ∃ replacement, fix.replacement? d.snippet line = some replacement ∧
        ∀ l ∈ replacement, Plain l ∧ ∀ number, look ⟨number, l, codeTokens l⟩ = []) :
    (findings (fix.apply d.line d.snippet text)).filter (·.rule == rule) =
      ((findings text).filter fun f => f.rule == rule && f != d).map
        (Finding.move (fix.shift d.line)) := by
  rw [ruled] at found
  obtain ⟨l, inside, here⟩ := List.mem_flatMap.1 found
  obtain ⟨before, line, after, eq, rfl⟩ := exists_of_mem_numbered inside
  rw [Nat.add_comm] at here
  obtain ⟨replacement, applies, quiet⟩ := hushed _ line here (plain_of_mem free (by simp [eq]))
  refine discharged_of_replaced free eq (per.line _ d here) offered applies
    (fun l mem => (quiet l mem).1) fun σ stays moves => ?_
  rw [ruled, ruled]
  refine per.replaced here (fun l mem => ?_) stays moves
  obtain ⟨_, line', _, rfl, rfl⟩ := exists_of_mem_numbered mem
  exact (quiet line' (by simp)).2 _

theorem blockingDelays_hushed {fix : Fix} (offered : fix ∈ Fix.offered .blockingDelay)
    {snippet line : String} {d : Finding} {number : Nat}
    (here : d ∈ blockingDelays ⟨number, line, codeTokens line⟩) (plain : Plain line) :
    ∃ replacement, fix.replacement? snippet line = some replacement ∧
      ∀ l ∈ replacement, Plain l ∧ ∀ number, blockingDelays ⟨number, l, codeTokens l⟩ = [] := by
  have quiet {l : String} (absent : delay? (codeTokens l) = none) (number : Nat) :
      blockingDelays ⟨number, l, codeTokens l⟩ = [] := by
    rw [blockingDelays, absent]
    rfl
  have comment : Plain (Fix.commented line) ∧
      ∀ number, blockingDelays ⟨number, _, codeTokens (Fix.commented line)⟩ = [] :=
    ⟨plain.commented, quiet (by rw [codeTokens_commented]; rfl)⟩
  rcases List.mem_pair.1 offered with rfl | rfl
  · exact ⟨_, rfl, List.forall_mem_singleton.2 comment⟩
  · obtain ⟨delay, held⟩ : ∃ delay, delay? (codeTokens line) = some delay := by
      refine Option.ne_none_iff_exists'.1 fun absent => ?_
      rw [quiet absent] at here
      cases here
    refine ⟨_, by rw [Fix.replacement?, held, Option.map_some],
      List.forall_mem_cons.2 ⟨comment, ?_⟩⟩
    exact fun l mem => (quiet_every _ l mem).imp_right quiet

theorem missingDeletes_discharged {text : String} (free : ∀ line ∈ lines text, Undirected line)
    {d : Finding} (found : d ∈ missingDeletes (numbered 1 (lines text))) :
    (findings (Fix.insertDelete.apply d.line d.snippet text)).filter (·.rule == .missingDelete) =
      ((findings text).filter fun f => f.rule == .missingDelete && f != d).map
        (Finding.move (Fix.insertDelete.shift d.line)) := by
  obtain ⟨⟨name, l⟩, kept, rfl⟩ := List.mem_map.1 found
  have entry := List.mem_of_mem_filter kept
  obtain ⟨inside, named⟩ := (records_foldl _).from_line _ entry
  obtain ⟨before, line, after, eq, rfl⟩ := exists_of_mem_numbered inside
  have applies : Fix.insertDelete.replacement? (trim line) line =
      some [line, "SPRITE_DELETE " ++ name] := by
    simp only [Fix.replacement?, nameAfter?_trim, named]
    rfl
  refine discharged_of_replaced free eq (Nat.add_comm _ _) (List.mem_singleton.2 rfl) applies ?_
    fun σ stays moves => ?_
  · exact List.forall_mem_cons.2 ⟨plain_of_mem free (by simp [eq]),
      List.forall_mem_singleton.2 (plain_delete named)⟩
  · rw [(ofRule_eq _).2.2, (ofRule_eq _).2.2]
    rw [eq] at entry
    exact missingDeletes_inserted named entry stays moves

theorem fix_discharges_finding {text : String} (free : ∀ line ∈ lines text, Undirected line)
    {d : Finding} (found : d ∈ findings text) {fix : Fix} (offered : fix ∈ Fix.offered d.rule) :
    (findings (fix.apply d.line d.snippet text)).filter (·.rule == d.rule) =
      ((findings text).filter fun f => f.rule == d.rule && f != d).map
        (Finding.move (fix.shift d.line)) := by
  have raw : d ∈ ofRule d.rule (numbered 1 (lines text)) := by
    rw [findings_of_undirected free, ofText_eq] at found
    exact List.mem_filter.2 ⟨found, beq_self_eq_true _⟩
  cases rule : d.rule with
  | suspiciousBaud | unusedVariable => simp [rule, Fix.offered] at offered
  | debugDraw =>
    rw [rule] at offered raw
    obtain rfl := List.mem_singleton.1 offered
    exact perLine_debugDraws.discharged (fun ls => (ofRule_eq ls).1) free raw offered
      fun _ _ _ _ => ⟨[], rfl, by simp⟩
  | blockingDelay =>
    rw [rule] at offered raw
    exact perLine_blockingDelays.discharged (fun ls => (ofRule_eq ls).2.1) free raw offered
      fun _ _ here plain => blockingDelays_hushed offered here plain
  | missingDelete =>
    rw [rule] at offered raw
    obtain rfl := List.mem_singleton.1 offered
    rw [(ofRule_eq _).2.2] at raw
    exact missingDeletes_discharged free raw

theorem fix_discharges_finding_sprite :
    (findings (Fix.insertDelete.apply 1 "CREATE_SPRITE a, 8, 8"
        "CREATE_SPRITE a, 8, 8\nCREATE_SPRITE b, 8, 8\n")).filter (·.rule == .missingDelete) =
      [⟨.missingDelete, 3, 1, "Sprite b created but no delete found",
        "CREATE_SPRITE b, 8, 8"⟩] := by
  have free : ∀ line ∈ lines "CREATE_SPRITE a, 8, 8\nCREATE_SPRITE b, 8, 8\n",
      ':' ∉ line.toList := by
    decide
  rw [@fix_discharges_finding _ (fun line mem => undirected_of_not_mem (free line mem))
    ⟨.missingDelete, 1, 1, "Sprite a created but no delete found", "CREATE_SPRITE a, 8, 8"⟩
    (by decide +kernel) .insertDelete (by decide)]
  decide +kernel

end BasicSketch.Lint
