import BasicSketch.Proofs.BodyNames
import BasicSketch.Proofs.PlainLines
import Mathlib.Data.List.Nodup
import Mathlib.Data.List.Perm.Basic

set_option autoImplicit false

/-!
Hoisting. Main statements: a name is hoisted for an assignment exactly if nothing declares it by
then; a plain name that is assigned in a body comes from its header, is a global by then, or is
declared in the procedure exactly once, and what is hoisted stands below the header in the order of
the first assignments.
-/

namespace BasicSketch

open Text SketchLine Sketch

/-- The first occurrences of names, ignoring case. -/
def firsts (names : List String) : List String :=
  names.foldl (fun seen x => if seen.any (sameWord x) then seen else seen ++ [x]) []

theorem firsts_concat (names : List String) (x : String) :
    firsts (names ++ [x]) =
      if (firsts names).any (sameWord x) then firsts names else firsts names ++ [x] := by
  simp [firsts, List.foldl_append]

theorem mem_of_mem_firsts {names : List String} {x : String} (mem : x ∈ firsts names) :
    x ∈ names := by
  induction names using List.reverseRecOn with
  | nil => exact mem
  | append_singleton rest y ih =>
    rw [firsts_concat] at mem
    split at mem
    · exact List.mem_append_left _ (ih mem)
    · exact List.mem_append.2 ((List.mem_append.1 mem).imp_left ih)

section

variable {options : Options} {sts : List Statement} {earlier later : List Moment} {m : Moment}
  {n : Nat}

theorem entriesOf_elsewhere (away : m.home ≠ .procedure n) : entriesOf (.procedure n) [m] = [] := by
  have same := @entriesOf_away (.procedure n) [] [m] (by simp [Home.procedure])
    (List.forall_mem_singleton.2 away)
  rwa [List.nil_append] at same

theorem hoisted_inBody {ms : List Moment} :
    ((entriesOf (.procedure n) ms).filter NameEntry.isHoisted).map NameEntry.name =
      (inBody n ms).flatMap Moment.hoists := by
  induction ms with
  | nil => rfl
  | cons m rest ih =>
    rw [← List.singleton_append, entriesOf_append, inBody_append, List.filter_append,
      List.map_append, List.flatMap_append, ih]
    congr 1
    by_cases home : m.home = .procedure n
    · have inside : m.home.scope = .procedure := by rw [home]; rfl
      rw [entriesOf, List.flatMap_singleton, List.filter_comm, m.hoisted_entries, if_pos inside]
      simp [List.filter_map, Function.comp_def, inBody, home]
    · simp [entriesOf_elsewhere home, inBody, home]

/-- The other declarations of a body, with or without what is collected for a branch. -/
theorem others_inBody {α : Type} (keep : Bool → Bool) {f : NameEntry → α} {g : Declared → α}
    (same : ∀ d declarer captured, f (Declared.entry d declarer captured) = g d) {ms : List Moment}
    (apart : ∀ m ∈ ms, ∀ home q, m.deed = .takes home q → home ≠ m.home) :
    ((entriesOf (.procedure n) ms).filter fun e => !e.isHoisted && keep e.captured).map f =
      ((inBody n ms).filter fun m => keep m.sketch.capture.isSome).flatMap
        fun m => m.writes.map g := by
  induction ms with
  | nil => rfl
  | cons m rest ih =>
    obtain ⟨here, later⟩ := List.forall_mem_cons.1 apart
    rw [← List.singleton_append, entriesOf_append, inBody_append, List.filter_append,
      List.map_append, List.filter_append, List.flatMap_append, ih later]
    congr 1
    by_cases home : m.home = .procedure n
    · obtain ⟨declarer, -, eq⟩ := Moment.other_entries (by rw [home]; rfl) here
      have kept : (entriesOf (.procedure n) [m]).filter (fun e => !e.isHoisted && keep e.captured) =
          (m.writes.map (·.entry declarer m.sketch.capture.isSome)).filter (keep ·.captured) := by
        rw [← eq, entriesOf, List.flatMap_singleton, List.filter_filter, List.filter_filter, home]
        refine List.filter_congr fun e _ => ?_
        rw [Bool.and_right_comm, Bool.and_comm (!e.isHoisted && _)]
      have captured (d : Declared) :
        (d.entry declarer m.sketch.capture.isSome).captured = m.sketch.capture.isSome := rfl
      rw [kept, List.filter_map, List.map_map]
      cases keeps : keep m.sketch.capture.isSome <;>
        simp [Function.comp_def, captured, same, inBody, home, keeps]
    · simp [entriesOf_elsewhere home, inBody, home]

/-- The body that a parameter belongs to is not the one in which its header stands. -/
theorem history_takes : History fun earlier _ =>
    ∀ m ∈ earlier, ∀ home q, m.deed = .takes home q → home ≠ m.home where
  rests apart _ _ := apart
  holds _ _ apart _ := List.forall_mem_append.2 ⟨apart, by simp⟩
  performs {_ p s} n a apart fits := by
    refine List.forall_mem_append.2 ⟨apart, List.forall_mem_cons.2 ⟨by simp, ?_⟩⟩
    have parameters {inside : Home} (other : inside ≠ p.home) (ps : List Parameter) :
        ∀ s, ∀ m ∈ parameterMoments p.home inside s ps, ∀ home q, m.deed = .takes home q →
          home ≠ m.home := by
      induction ps with
      | nil => simp [parameterMoments]
      | cons _ rest ih =>
        intro s
        refine List.forall_mem_cons.2 ⟨?_, List.forall_mem_cons.2 ⟨by simp, ih _⟩⟩
        rintro home q ⟨⟩
        exact other
    have declarations (isStatic : Bool) (ds : List Declaration) :
        ∀ s, ∀ m ∈ declarationMoments p.home isStatic s ds, ∀ home q, m.deed = .takes home q →
          home ≠ m.home := by
      induction ds with
      | nil => simp [declarationMoments]
      | cons d rest ih => exact fun s => List.forall_mem_cons.2 ⟨by simp, ih _⟩
    cases a with
    | dim ds => exact declarations false ds s
    | static ds => exact declarations true ds s
    | procedureStart h =>
      rw [actionMoments]
      split
      · refine parameters (fun same => ?_) h.parameters s
        have number : p.begun + 1 = p.home.number := congrArg Home.number same
        have bound := fits.number
        omega
      · simp
    | _ => simp [actionMoments]
  tasks _ _ _ _ apart := apart
  resumes _ apart := apart

theorem drafted_moment (split : momentsOf options sts = earlier ++ m :: later)
    (isStatement : m.isStatement = true) (home : m.home = .procedure n) :
    ∃ q, m.sketch.open? = some q ∧ Drafted earlier n m.sketch.localNames q := by
  have told := (records_ofStatements options sts).told
  rw [split] at told
  exact (draftedAt_append.1 told).2.1 isStatement n home

theorem Drafted.mono {ms more : List Moment} {names names' : List String} {q q' : Procedure}
    {w : String} (drafted : Drafted ms n names q) (later : Drafted (ms ++ more) n names' q')
    (mem : w ∈ names) : w ∈ names' := by
  obtain ⟨o, found, -, known⟩ := drafted.known
  obtain ⟨o', found', -, known'⟩ := later.known
  obtain rfl := Option.some.inj ((opener_append more found).symm.trans found')
  rw [known'] at *
  rcases (known w).1 mem with brought | ⟨y, new, same⟩
  · exact Or.inl brought
  · refine Or.inr ⟨y, ?_, same⟩
    rw [entriesOf_append]
    exact List.mem_append_left _ new

theorem Moment.statement_of_assigns {x : String} (assigns : x ∈ m.assigns) :
    m.isStatement = true := by
  unfold Moment.assigns at assigns
  split at assigns
  · rename_i deed
    simp [Moment.isStatement, deed]
  · simp at assigns

theorem Moment.declared_or_hoisted {x : String} (assigns : x ∈ m.assigns) :
    lower x ∈ m.sketch.localNames ∨ m.sketch.isGlobal x = true ∨ x ∈ m.hoists := by
  cases declared : m.sketch.isDeclared x with
  | false => exact Or.inr (Or.inr (List.mem_filter.2 ⟨assigns, by simp [declared]⟩))
  | true =>
    rcases Bool.or_eq_true_iff.1 declared with known | global
    · exact Or.inl (by simpa using known)
    · exact Or.inr (Or.inl global)

theorem not_undeclared (split : momentsOf options sts = earlier ++ m :: later) {x : String}
    (global : m.sketch.isGlobal x = true) : ¬Undeclared earlier x := fun absent => by
  simp [(isGlobal_moment split x).2 absent] at global

/-- What has been assigned in a body stays declared there. -/
theorem isDeclared_of_assigned (split : momentsOf options sts = earlier ++ m :: later)
    (isStatement : m.isStatement = true) (home : m.home = .procedure n) {x y : String}
    (assigned : y ∈ (inBody n earlier).flatMap Moment.assigns) (same : lower y = lower x) :
    m.sketch.isDeclared x = true := by
  obtain ⟨m', mem, assigns⟩ := List.mem_flatMap.1 assigned
  obtain ⟨among, here⟩ := List.mem_filter.1 mem
  have here : m'.home = .procedure n := by simpa using here
  obtain ⟨before, between, rfl⟩ := List.append_of_mem among
  have split' : momentsOf options sts = before ++ m' :: (between ++ m :: later) := by
    simpa using split
  obtain ⟨_, -, drafted'⟩ := drafted_moment split' (Moment.statement_of_assigns assigns) here
  obtain ⟨_, -, drafted⟩ := drafted_moment split isStatement home
  have known (local_ : lower y ∈ m.sketch.localNames) : m.sketch.isDeclared x = true := by
    rw [isDeclared, Bool.or_eq_true, List.contains_iff_mem, ← same]
    exact Or.inl local_
  rcases Moment.declared_or_hoisted assigns with declared | global | hoisted
  · exact known (drafted'.mono drafted declared)
  · -- a global stays one
    rw [isDeclared, Bool.or_eq_true]
    refine Or.inr (Bool.not_eq_false _ ▸ fun absent =>
      not_undeclared split' global fun m mem z global => ?_)
    have other := (isGlobal_moment split x).1 absent m (List.mem_append_left _ mem) z global
    rwa [sameWord_iff, same, ← sameWord_iff]
  · obtain ⟨o, -, -, names⟩ := drafted.known
    have entered : y ∈ (inBody n (before ++ m' :: between)).flatMap Moment.hoists :=
      List.mem_flatMap.2 ⟨m', mem, hoisted⟩
    rw [← hoisted_inBody] at entered
    obtain ⟨e, mem, rfl⟩ := List.mem_map.1 entered
    exact known ((names _).2 (Or.inr ⟨e, (List.mem_filter.1 mem).1, rfl⟩))

theorem hoisted_sublist_firsts (split : momentsOf options sts = earlier ++ later) :
    ((inBody n earlier).flatMap Moment.hoists).Sublist
      (firsts ((inBody n earlier).flatMap Moment.assigns)) := by
  -- from the right: the last moment hoists what it assigns, if no moment before it did
  induction earlier using List.reverseRecOn generalizing later with
  | nil => exact List.Sublist.slnil
  | append_singleton rest m ih =>
    have split' : momentsOf options sts = rest ++ m :: later := by simpa using split
    have before := ih split'
    rw [inBody_append]
    by_cases home : m.home = .procedure n
    · simp only [show inBody n [m] = [m] by simp [inBody, home], List.flatMap_append,
        List.flatMap_singleton]
      rcases m.assigns_le with absent | ⟨x, one⟩
      · simpa [Moment.hoists, absent] using before
      · have isStatement := Moment.statement_of_assigns (one ▸ List.mem_cons_self)
        rw [one, firsts_concat]
        cases declared : m.sketch.isDeclared x with
        | true =>
          have unhoisted : m.hoists = [] := by simp [Moment.hoists, one, declared]
          rw [unhoisted, List.append_nil]
          split
          · exact before
          · exact before.trans (List.sublist_append_left _ _)
        | false =>
          have new :
              (firsts ((inBody n rest).flatMap Moment.assigns)).any (sameWord x) = false := by
            rw [List.any_eq_false]
            intro y mem same
            have known := isDeclared_of_assigned split' isStatement home (mem_of_mem_firsts mem)
              ((sameWord_iff _ _).1 same).symm
            simp [declared] at known
          rw [new, if_neg Bool.false_ne_true,
            show m.hoists = [x] by simp [Moment.hoists, one, declared]]
          exact before.append (List.Sublist.refl _)
    · rw [show inBody n [m] = [] by simp [inBody, home], List.append_nil]
      exact before

theorem countP_eq_one {ms : List Moment}
    (apart : (ms.flatMap Moment.entries).Pairwise fun e e' =>
      e.home = e'.home → e.home.scope ≠ .global → lower e.name ≠ lower e'.name)
    (takes : ∀ m ∈ ms, ∀ home q, m.deed = .takes home q → home ≠ m.home) {e : NameEntry}
    {x : String}
    (mem : e ∈ entriesOf (.procedure n) ms) (same : lower e.name = lower x) :
    ((inBody n ms).flatMap Moment.hoists ++
      ((inBody n ms).flatMap Moment.writes).map Declared.name).countP (sameWord · x) = 1 := by
  have counts (l : List String) : l.countP (sameWord · x) = (l.map lower).count (lower x) := by
    rw [List.count, List.countP_map]
    rfl
  have others := others_inBody (n := n) (fun _ => true) (f := NameEntry.name) (g := Declared.name)
    (fun _ _ _ => rfl) takes
  simp only [Bool.and_true, List.filter_true] at others
  rw [List.map_flatMap, ← hoisted_inBody, ← others, ← List.map_append,
    ((List.filter_append_perm _ _).map _).countP_eq, counts]
  refine List.count_eq_one_of_mem ?_ (same ▸ List.mem_map.2 ⟨_, List.mem_map.2 ⟨e, mem, rfl⟩, rfl⟩)
  rw [List.map_map, List.Nodup, List.pairwise_map]
  refine List.pairwise_filter.2 (apart.imp fun differ here here' => ?_)
  obtain here : _ = Home.procedure n := by simpa using here
  obtain here' : _ = Home.procedure n := by simpa using here'
  exact differ (here.trans here'.symm) (by simp [here, Home.procedure])

theorem Moment.hoists_of_entry {m : Moment} {e : NameEntry} (mem : e ∈ m.entries)
    (hoisted : e.isHoisted = true) : e.home = m.home ∧ e.name ∈ m.hoists := by
  have among : e ∈ m.entries.filter NameEntry.isHoisted := List.mem_filter.2 ⟨mem, hoisted⟩
  rw [m.hoisted_entries] at among
  split at among
  · obtain ⟨x, new, rfl⟩ := List.mem_map.1 among
    exact ⟨rfl, new⟩
  · simp at among

theorem Moment.assign_of_hoists {m : Moment} {x : String} (mem : x ∈ m.hoists) :
    (∃ n v, m.deed = .statement (.plain n (.assign x v))) ∧ m.sketch.isDeclared x = false := by
  obtain ⟨assigns, fresh⟩ := List.mem_filter.1 mem
  refine ⟨?_, by simpa using fresh⟩
  unfold Moment.assigns at assigns
  split at assigns
  · rename_i deed
    split at assigns
    · obtain rfl := List.mem_singleton.1 assigns
      exact ⟨_, _, deed⟩
    · simp at assigns
  · simp at assigns

theorem Drafted.title {ms more : List Moment} {names names' : List String} {q q' : Procedure}
    (drafted : Drafted ms n names q) (later : Drafted (ms ++ more) n names' q') :
    q.title = q'.title := by
  obtain ⟨o, found, opens, -⟩ := drafted.known
  obtain ⟨o', found', opens', -⟩ := later.known
  obtain rfl := Option.some.inj ((opener_append more found).symm.trans found')
  revert opens opens'
  unfold Moment.Opens
  split
  · exact fun opens opens' => Option.some.inj (opens.2.symm.trans opens'.2)
  · exact fun opens opens' => Option.some.inj (opens.symm.trans opens')
  · exact fun opens => opens.elim

end

theorem Sketch.hoisted_emit (s : Sketch) (text : String) :
    (s.emit text).open?.map Procedure.hoisted = s.open?.map Procedure.hoisted :=
  (Procedure.title_of_heading (push_heading s true s.scope s.depth text)).2

theorem Sketch.hoisted_assign {s : Sketch} {q : Procedure} {x : String} {v : Expr}
    (inside : s.scope = .procedure) (opened : s.open? = some q) (plain : isPlainName x = true)
    (value : constructs v = false) :
    (s.perform (.assign x v)).open?.map Procedure.hoisted = some (q.hoisted ++ [x]) ↔
      s.isDeclared x = false := by
  have written : (s.perform (.assign x v)).open?.map Procedure.hoisted =
      (s.hoist x).open?.map Procedure.hoisted := by
    rw [perform, emitAssign, plain, value]
    exact hoisted_emit _ _
  rw [written]
  cases declared : s.isDeclared x with
  | true => simp [hoist_known (Or.inr declared), opened]
  | false =>
    simp [hoist_fresh inside opened declared]

/-- A name is hoisted in a procedure for an assignment to it, exactly if neither the body nor a
global declaration in front of the assignment declares it. -/
theorem hoisted_iff_undeclared_before (options : Options) (sts : List Statement) :
    let ms := momentsOf options sts
    (∃ done : List (Nat × Procedure),
      (done.map Prod.fst).Nodup ∧
      (∀ m ∈ ms, m.home.scope = .procedure → m.home.number ∈ done.map Prod.fst) ∧
      (Sketch.ofStatements options sts).procedures = Procedure.latest (done.map Prod.snd) ∧
      ∀ k q, (k, q) ∈ done → ∀ x ∈ q.hoisted,
        ∃ earlier m later, ms = earlier ++ m :: later ∧
          (∃ n v, m.deed = .statement (.plain n (.assign x v))) ∧ m.home = .procedure k ∧
          m.sketch.open?.map Procedure.title = some q.title ∧ Undeclared earlier x) ∧
    ∀ earlier m later, ms = earlier ++ m :: later →
      ∀ n x v, m.deed = .statement (.plain n (.assign x v)) →
        isPlainName x = true → constructs v = false → ∀ q, m.sketch.open? = some q →
        ((m.sketch.perform (.assign x v)).open?.map Procedure.hoisted = some (q.hoisted ++ [x]) ↔
          lower x ∉ m.sketch.localNames ∧ Undeclared earlier x) := by
  intro ms
  have routes := ofStatements_finished options sts
  have records := records_ofStatements options sts
  refine ⟨⟨finished options sts, routes.distinct, covered_finished, collected_finished,
      fun k q mem x hoisted => ?_⟩, fun earlier m later split n x v deed plain value q opened => ?_⟩
  -- the entry of the body that hoists the name is made at an assignment, and what was global then
  -- is logged
  · obtain ⟨_, drafted⟩ : ∃ names, Drafted ms k names q := records.finished _ mem
    rw [drafted.hoisted] at hoisted
    obtain ⟨e, mem, rfl⟩ := List.mem_map.1 hoisted
    obtain ⟨mem, isHoisted⟩ := List.mem_filter.1 mem
    obtain ⟨mem, home⟩ := mem_entriesOf.1 mem
    obtain ⟨m, among, mem⟩ := List.mem_flatMap.1 mem
    obtain ⟨here, hoists⟩ := Moment.hoists_of_entry mem isHoisted
    obtain ⟨assigns, fresh⟩ := Moment.assign_of_hoists hoists
    have inBody : m.home = .procedure k := here.symm.trans home
    obtain ⟨earlier, later, split⟩ := List.append_of_mem among
    have isStatement : m.isStatement = true := by
      obtain ⟨_, _, deed⟩ := assigns
      simp [Moment.isStatement, deed]
    obtain ⟨q₀, opened, before⟩ := drafted_moment split isStatement inBody
    rw [split] at drafted
    refine ⟨earlier, m, later, split, assigns, inBody, ?_, (isGlobal_moment split _).1 ?_⟩
    · rw [opened, Option.map_some, before.title drafted]
    · exact (Bool.or_eq_false_iff.1 fresh).2
  -- an open procedure is the scope of the moment, as `hoist` looks at the scope
  · have standing := routes.stands m (by simp [ms, split]) (by simp [Moment.isStatement, deed])
    rw [hoisted_assign (standing.2.2 (by simp [opened])) opened plain value, isDeclared,
      Bool.or_eq_false_iff, isGlobal_moment split]
    simp

theorem hoisted_beside_global :
    let sts := (Program.ofSource "Dim g As Integer\nSub A()\nG = 1\nx = 2\nEnd Sub").statements
    (∃ q ∈ (Sketch.ofStatements .standard sts).procedures, q.hoisted = ["x"] ∧
      ∃ k earlier m later, momentsOf .standard sts = earlier ++ m :: later ∧
        (∃ n v, m.deed = .statement (.plain n (.assign "x" v))) ∧ m.home = .procedure k ∧
        m.sketch.open?.map Procedure.title = some q.title ∧ Undeclared earlier "x") ∧
    ∃ earlier m later v q, momentsOf .standard sts = earlier ++ m :: later ∧
      m.deed = .statement (.plain 3 (.assign "G" v)) ∧ isPlainName "G" = true ∧
      constructs v = false ∧ m.sketch.open? = some q ∧
      ((m.sketch.perform (.assign "G" v)).open?.map Procedure.hoisted =
          some (q.hoisted ++ ["G"]) ↔
        lower "G" ∉ m.sketch.localNames ∧ Undeclared earlier "G") := by
  intro sts
  have read : sts = _ := Program.statements_ofSource (by decide +kernel)
  have hoisted : (Sketch.ofStatements .standard sts).procedures.map Procedure.hoisted =
      [["x"]] := by
    rw [read]
    decide +kernel
  obtain ⟨q, alone, names⟩ := List.map_eq_singleton_iff.1 hoisted
  have mem : q ∈ (Sketch.ofStatements .standard sts).procedures := by simp [alone]
  have assigned : ∃ earlier m later, momentsOf .standard sts = earlier ++ m :: later ∧
      m.sketch.open?.isSome = true ∧ m.plain? = some (3, .assign "G" ⟨"1"⟩) := by
    rw [read]
    exact exists_moment 3 (by decide +kernel)
  obtain ⟨earlier, m, later, split, opened, assigns⟩ := assigned
  obtain ⟨q', opened⟩ := Option.isSome_iff_exists.1 opened
  have deed := Moment.deed_of_plain? assigns
  have value : constructs ⟨"1"⟩ = false := by decide +kernel
  have plain : isPlainName "G" = true := by decide +kernel
  obtain ⟨⟨done, -, -, collected, traced⟩, decided⟩ := hoisted_iff_undeclared_before .standard sts
  obtain ⟨k, among⟩ : ∃ k, (k, q) ∈ done := by
    rw [collected] at mem
    obtain ⟨d, among, rfl⟩ := List.mem_map.1 (Procedure.mem_of_mem_latest mem)
    exact ⟨d.1, among⟩
  exact ⟨⟨q, mem, names, k, traced k q among "x" (by simp [names])⟩, earlier, m, later, _, q',
    split, deed, plain, value, opened,
    decided earlier m later split 3 "G" _ deed plain value q' opened⟩

theorem hoisted_over_later_global :
    let sts := (Program.ofSource "Sub A()\nx = 1\nEnd Sub\nDim x As Integer").statements
    let sketch := Sketch.ofStatements .standard sts
    (momentsOf .standard sts).flatMap Moment.globals = ["x"] ∧
    sketch.globals.map SketchLine.render = ["// __VB_LINE__:4", "int x = 0;"] ∧
    sketch.procedures.map (fun q => q.lines.map SketchLine.render) =
      [["// __VB_LINE__:1", "void A() \x7b", "    float x = 0;", "    // __VB_LINE__:2",
        "    x = 1;", "// __VB_LINE__:3", "\x7d"]] := by
  intro sts sketch
  have read : sts = _ := Program.statements_ofSource (by decide +kernel)
  simp only [sketch, read]
  decide +kernel

/-- Each name assigned in a procedure comes from its header, is global by then, or is declared in it
exactly once. The hoisted declarations stand below the header, if that is not collected for a branch
of a single-line `If`. -/
theorem hoisting_complete (options : Options) (sts : List Statement) :
    let ms := momentsOf options sts
    ∃ done : List (Nat × Procedure),
      (done.map Prod.fst).Nodup ∧
      (∀ m ∈ ms, m.home.scope = .procedure → m.home.number ∈ done.map Prod.fst) ∧
      (Sketch.ofStatements options sts).procedures = Procedure.latest (done.map Prod.snd) ∧
      ∀ n q, (n, q) ∈ done →
        q.lines = q.header ++ q.hoisted.map Procedure.hoistedLine ++ q.body ∧
        q.hoisted.Sublist (firsts ((inBody n ms).flatMap Moment.assigns)) ∧
        declarations q.body = (((inBody n ms).filter (·.sketch.capture.isNone)).flatMap
          Moment.writes).map Declared.text ∧
        ∃ o st text, (ms.filter Moment.opens)[n - 1]? = some o ∧ o.deed = .statement st ∧
          o.Opens q ∧ (q.header = if o.sketch.capture.isSome then []
            else st.headerLines (!o.interrupts) text) ∧
          ∀ earlier m later, ms = earlier ++ m :: later → m.home = .procedure n → ∀ x ∈ m.assigns,
            (∃ y ∈ o.brings, sameWord y x = true) ∨ ¬Undeclared earlier x ∨
              (q.hoisted ++ ((inBody n ms).flatMap Moment.writes).map Declared.name).countP
                (sameWord · x) = 1 := by
  intro ms
  have routes := ofStatements_finished options sts
  refine ⟨finished options sts, routes.distinct, covered_finished, collected_finished,
    fun n q mem => ?_⟩
  have records := records_ofStatements options sts
  have takes : ∀ m ∈ ms, ∀ home q, m.deed = .takes home q → home ≠ m.home :=
    history_takes.run (by simp) sts
  obtain ⟨_, drafted⟩ : ∃ names, Drafted ms n names q := records.finished _ mem
  have once {e : NameEntry} {x : String} (mem : e ∈ entriesOf (.procedure n) ms)
      (same : lower e.name = lower x) :=
    countP_eq_one records.recorded.apart takes mem same
  obtain ⟨o, found, opens, -⟩ := drafted.known
  obtain ⟨st, deed⟩ := opens.statement
  have among : o ∈ ms := (List.mem_filter.1 (List.mem_of_getElem? found)).1
  have stands := (routes.stands o among (by simp [Moment.isStatement, deed])).1
  obtain ⟨text, header⟩ := opens.header deed (fresh_allMoments sts _ _ o among) stands
  have hoisted := @hoisted_sublist_firsts options sts ms [] n (by simp [ms])
  have written : declarations q.body = (((inBody n ms).filter (·.sketch.capture.isNone)).flatMap
      Moment.writes).map Declared.text := by
    have others := others_inBody (n := n) (! ·) (f := NameEntry.text) (g := Declared.text)
      (fun _ _ _ => rfl) takes
    simp only [Option.not_isSome] at others
    rw [drafted.declared, List.map_flatMap, ← others]
    rfl
  rw [drafted.hoisted, hoisted_inBody]
  refine ⟨by rw [← hoisted_inBody, ← drafted.hoisted]; rfl, hoisted, written, o, st, text, found,
    deed, opens, header, fun earlier m later split home x assigns => ?_⟩
  have isStatement := Moment.statement_of_assigns assigns
  obtain ⟨_, -, before⟩ := drafted_moment split isStatement home
  rcases Moment.declared_or_hoisted assigns with known | global | new
  · -- a local name was brought by the header or is new since
    obtain ⟨o', found', -, known'⟩ := before.known
    have same : o' = o := by
      have again := opener_append (m :: later) found'
      rw [← split] at again
      exact Option.some.inj (again.symm.trans found)
    rcases (known' _).1 known with ⟨y, brought, same'⟩ | ⟨e, mem, same'⟩
    · exact Or.inl ⟨y, same ▸ brought, (sameWord_iff _ _).2 same'⟩
    · refine Or.inr (Or.inr (once ?_ same'))
      rw [show ms = _ from split, entriesOf_append]
      exact List.mem_append_left _ mem
  · exact Or.inr (Or.inl (not_undeclared split global))
  · have here : m ∈ inBody n ms := List.mem_filter.2 ⟨by simp [ms, split], by simp [home]⟩
    have entered := List.mem_flatMap.2 ⟨m, here, new⟩
    rw [← hoisted_inBody] at entered
    obtain ⟨e, mem, rfl⟩ := List.mem_map.1 entered
    exact Or.inr (Or.inr (once (List.mem_filter.1 mem).1 rfl))

/-- The header goes to the code of the `If`, which stands below what is hoisted. -/
theorem hoisted_above_collected_header :
    let header : Statement := .plain 1 (.procedureStart ⟨.sub, "A", [], none⟩)
    let sts := [.inlineIf 1 ⟨"c"⟩ header, .plain 2 (.assign "x" ⟨"1"⟩),
      .plain 3 (.procedureEnd .sub)]
    (Sketch.ofStatements .standard sts).procedures.map (fun q => q.lines.map SketchLine.render) =
      [["    float x = 0;", "    // __VB_LINE__:1", "    if (c) \x7b void A() \x7b \x7d",
        "    // __VB_LINE__:2", "    x = 1;", "// __VB_LINE__:3", "\x7d"]] := by
  decide +kernel

end BasicSketch
