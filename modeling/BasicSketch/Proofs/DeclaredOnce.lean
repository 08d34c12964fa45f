import BasicSketch.Proofs.BodyNames
import Mathlib.Data.List.Induction

set_option autoImplicit false

/-! Declarations are never repeated. -/

namespace BasicSketch

open Text SketchLine Sketch

theorem Moment.mem_globals {m : Moment} {e : NameEntry} (mem : e ∈ m.entries)
    (outside : e.home.scope = .global) : e.name ∈ m.globals := by
  obtain ⟨home, s, deed⟩ := m
  cases deed with
  | statement st =>
    cases st with
    | plain n a =>
      cases a with
      | const name value =>
        cases known : s.isGlobal name with
        | true => simp [entries, known] at mem
        | false =>
          obtain rfl : e = _ := by simpa [entries, known] using mem
          exact List.mem_singleton_self _
      | arrayLiteral a =>
        obtain ⟨d, declared, rfl⟩ := List.mem_map.1 mem
        cases skips : s.skipsLiteral a with
        | true => simp [Moment.declared, actionDeclared, skips] at declared
        | false =>
          obtain rfl : d = _ := by simpa [Moment.declared, actionDeclared, skips] using declared
          cases constant : a.constant <;>
            simp_all [Moment.globals, Declared.entry, literalDeclared]
      | assign x v =>
        have inside : home.scope = .procedure := by
          by_contra other
          simp [entries, other] at mem
        obtain ⟨y, -, rfl⟩ : ∃ y ∈ Moment.hoists ⟨home, s, _⟩, _ = e := by
          simpa [entries, inside] using mem
        simp [inside] at outside
      | _ => simp [entries] at mem
    | _ => simp [entries] at mem
  | declares isStatic d =>
    obtain ⟨d', declared, rfl⟩ := List.mem_map.1 mem
    cases skips : s.skips isStatic d with
    | true => simp [Moment.declared, skips] at declared
    | false =>
      obtain rfl : d' = _ := by simpa [Moment.declared, skips] using declared
      simp_all [Moment.globals, Declared.entry, variableDeclared]
  | _ => simp [entries] at mem

theorem pairwise_moments {ms : List Moment} {R : NameEntry → NameEntry → Prop}
    (apart : ∀ earlier m later, ms = earlier ++ m :: later → ∀ m' ∈ earlier, ∀ e ∈ m'.entries,
      ∀ e' ∈ m.entries, R e e') : (ms.flatMap Moment.entries).Pairwise R := by
  induction ms using List.reverseRecOn with
  | nil => exact List.Pairwise.nil
  | append_singleton rest m ih =>
    have before := ih fun earlier m' later split =>
      apart earlier m' (later ++ [m]) (by simp [split])
    rw [List.flatMap_append, List.flatMap_singleton]
    refine List.pairwise_append.2 ⟨before, m.pairwise_entries R, fun e mem => ?_⟩
    obtain ⟨m', among, mem⟩ := List.mem_flatMap.1 mem
    exact apart rest m [] rfl m' among e mem

/-- A name that must be none of a global is none of those in front of it. -/
theorem globals_apart (options : Options) (sts : List Statement) :
    ((momentsOf options sts).flatMap Moment.entries).Pairwise fun e e' =>
      e.home.scope = .global → e'.isShared = true → ¬ sameWord e.name e'.name := by
  have recorded := (records_ofStatements options sts).recorded
  refine pairwise_moments fun earlier m later split m' among e mem e' mem' outside shared => ?_
  have absent := recorded.unshared m (by simp [split]) e' mem' shared
  simpa using (isGlobal_moment split e'.name).1 absent m' among e.name
    (Moment.mem_globals mem outside)

/-- No name is declared twice in one body or among the globals, and no global is declared again by a
`Dim` in `setup` or `loop`. -/
theorem declarations_not_repeated (options : Options) (sts : List Statement) :
    let ms := momentsOf options sts
    let entries := ms.flatMap Moment.entries
    let sketch := Sketch.ofStatements options sts
    entries.Pairwise (fun e e' => e.home = e'.home → ¬ sameWord e.name e'.name) ∧
      entries.Pairwise (fun e e' => e.home = .outside → e'.declarer = .dim →
        e'.home.scope = .setup ∨ e'.home.scope = .loop → ¬ sameWord e.name e'.name) ∧
      (∀ scope, scope ≠ .procedure → declarations (sketch.buffer scope) =
        (entries.filter fun e => e.isWritten && e.home.scope == scope).map NameEntry.text) ∧
      ∃ done : List (Nat × Procedure),
        (done.map Prod.fst).Nodup ∧
        (∀ m ∈ ms, m.home.scope = .procedure → m.home.number ∈ done.map Prod.fst) ∧
        sketch.procedures = Procedure.latest (done.map Prod.snd) ∧
        ∀ n q, (n, q) ∈ done →
          declarations q.body = ((entries.filter (·.home == .procedure n)).filter
            NameEntry.isWritten).map NameEntry.text ∧
          q.hoisted = ((entries.filter (·.home == .procedure n)).filter
            NameEntry.isHoisted).map NameEntry.name := by
  intro ms entries sketch
  have routes := ofStatements_finished options sts
  have records := records_ofStatements options sts
  have globals := globals_apart options sts
  refine ⟨?_, ?_, records.recorded.written, finished options sts, routes.distinct, covered_finished,
    collected_finished, fun n q mem => ?_⟩
  · refine (globals.and records.recorded.apart).imp fun {e e'} apart same repeated => ?_
    by_cases outside : e.home.scope = .global
    · exact apart.1 outside (by simp [NameEntry.isShared, ← same, outside]) repeated
    · exact apart.2 same outside ((sameWord_iff _ _).1 repeated)
  · refine globals.imp fun {e e'} apart outside dim routine => apart (by rw [outside]; rfl) ?_
    rcases routine with inside | inside <;> simp [NameEntry.isShared, dim, inside]
  · obtain ⟨_, drafted⟩ : ∃ names, Drafted ms n names q := records.finished _ mem
    exact ⟨drafted.declared, drafted.hoisted⟩

end BasicSketch
