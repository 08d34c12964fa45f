import BasicSketch.Proofs.ByteSlice
import BasicSketch.Cpp.Expression

set_option autoImplicit false

/-! Parts of an expression. -/

namespace BasicSketch.Cpp

open Text

variable {σ : Symbols} {mode : Mode} {before rest : List Token} {t : Token}

def callText (σ : Symbols) (mode : Mode) (isMember : Bool) (name : String) (inner : List Token) :
    String :=
  let arguments := Cpp.splitArguments inner
  let use (index : Nat) : Mode :=
    if mode == .target then .value else argumentMode (lower name) arguments.length index
  let values := arguments.mapIdx fun index piece => trim (write σ (use index) [] piece)
  if isMember && mode != .target then name ++ "(" ++ trim (write σ .value [] inner) ++ ")"
  else if mode == .target then indexed name values
  else namedCall σ name arguments values

theorem write_call {mode : Mode} {rest inner tail : List Token} {close : Token}
    (notNew : (t.kind == .keyword .New) = false)
    (isName : (t.isWord && !isOperatorWord t.kind) = true)
    (list : argumentList? rest = some (inner, close, tail)) :
    write σ mode before (t :: rest) =
      gapText before t ++ callText σ mode (before.head?.any (·.kind.isMember)) t.text inner ++
        write σ mode (close :: before) tail := by
  have unattached {arguments : List (List Token)} (use : Nat → Mode) :
      (arguments.attach.mapIdx fun index piece => trim (write σ (use index) [] piece.1)) =
        arguments.mapIdx fun index piece => trim (write σ (use index) [] piece) := by
    refine List.ext_getElem? fun index => ?_
    rw [List.getElem?_mapIdx, List.getElem?_mapIdx, List.getElem?_attach, Option.map_pmap]
    simp only [Option.pmap_eq_map]
  rw [write.eq_def]
  simp only [notNew, isName, Bool.false_eq_true, if_false, if_true]
  split
  · rename_i none
    rw [list] at none
    cases none
  · rename_i found
    rw [list] at found
    cases found
    simp only [callText, unattached]

theorem write_new_list {object : Token} {after inside tail : List Token} {close : Token}
    (new : t.kind = .keyword .New) (word : object.isWord = true)
    (list : argumentList? after = some (inside, close, tail)) :
    write σ mode before (t :: object :: after) =
      gapText before t ++ "new " ++ object.text ++ "(" ++ trim (write σ .value [] inside) ++ ")" ++
        write σ mode (close :: before) tail := by
  rw [write.eq_def]
  simp only [new, word, beq_self_eq_true, if_true]
  split
  · rename_i found
    rw [list] at found
    cases found
    rfl
  · rename_i none
    rw [list] at none
    cases none

variable {after front : List Token} {object : Token}

theorem write_new_bare (new : t.kind = .keyword .New) (word : object.isWord = true)
    (list : argumentList? after = none) :
    write σ mode before (t :: object :: after) =
      gapText before t ++ "new " ++ object.text ++ "()" ++
        write σ mode (object :: t :: before) after := by
  rw [write.eq_def]
  simp only [new, word, beq_self_eq_true, if_true]
  split
  · rename_i found
    rw [list] at found
    cases found
  · rfl

theorem write_new_alone (new : t.kind = .keyword .New) (word : object.isWord = false) :
    write σ mode before (t :: object :: after) =
      gapText before t ++ "new" ++ write σ mode (t :: before) (object :: after) := by
  rw [write.eq_def]
  simp [new, word]

theorem write_name (new : (t.kind == .keyword .New) = false)
    (word : (t.isWord && !isOperatorWord t.kind) = true) (list : argumentList? rest = none) :
    write σ mode before (t :: rest) =
      gapText before t ++
        (if before.head?.any (·.kind.isMember) then t.text else bareName σ t.text) ++
        write σ mode (t :: before) rest := by
  rw [write.eq_def]
  simp only [new, word, Bool.false_eq_true, if_false, if_true]
  split
  · rfl
  · rename_i found
    rw [list] at found
    cases found

theorem write_other (new : (t.kind == .keyword .New) = false)
    (word : (t.isWord && !isOperatorWord t.kind) = false) :
    write σ mode before (t :: rest) =
      gapText before t ++ spelling σ mode before t rest ++ write σ mode (t :: before) rest := by
  rw [write.eq_def]
  simp only [new, word, Bool.false_eq_true, if_false]

/-- A place in an expression: how it is used, the tokens before it, nearest first, and the tokens
ahead. -/
structure Place where
  mode : Mode
  before : List Token
  ahead : List Token

def Place.text (σ : Symbols) (p : Place) : String := write σ p.mode p.before p.ahead

/-- The text of the second place is made for that of the first one. -/
inductive Part (σ : Symbols) : Place → Place → Prop
  | refl (p : Place) : Part σ p p
  | tail {p q r : Place} (front : String) (eq : p.text σ = front ++ q.text σ) (more : Part σ q r) :
    Part σ p r
  | inside {p q r : Place} (front back : String) (eq : p.text σ = front ++ trim (q.text σ) ++ back)
    (more : Part σ q r) : Part σ p r
  | argument {p q r : Place} (front back name : String) (arguments : List (List Token))
    (values : List String)
    (eq : p.text σ = front ++ indexed name values ++ back ∨
      p.text σ = front ++ namedCall σ name arguments values ++ back)
    (value : trim (q.text σ) ∈ values) (more : Part σ q r) : Part σ p r

theorem Part.trans {p q r : Place} (first : Part σ p q) (second : Part σ q r) : Part σ p r := by
  induction first with
  | refl => exact second
  | tail front eq _ ih => exact .tail front eq (ih second)
  | inside front back eq _ ih => exact .inside front back eq (ih second)
  | argument front back name arguments values eq value _ ih =>
    exact .argument front back name arguments values eq value (ih second)

def isBorder (u : Token) : Bool :=
  u.kind == .symbol .leftParen || u.kind == .symbol .comma || u.kind == .symbol .rightParen

theorem argumentList?_locate {inside tail : List Token} {close : Token}
    (inner : isBorder t = false)
    (list : argumentList? (front ++ t :: rest) = some (inside, close, tail)) :
    isBorder close = true ∧ ∃ opener f, isBorder opener = true ∧
      ((∃ r, front = opener :: f ∧ inside = f ++ t :: r ∧ rest = r ++ close :: tail) ∨
        front = opener :: (inside ++ close :: f) ∧ tail = f ++ t :: rest) := by
  cases front with
  | nil =>
    have other : t.kind ≠ .symbol .leftParen := fun paren => by simp [isBorder, paren] at inner
    simp [argumentList?, other] at list
  | cons opener more =>
    simp only [argumentList?, List.cons_append] at list
    split at list
    · rename_i opens
      have closes := kind_closeParen? list
      refine ⟨by simp [isBorder, closes], opener, ?_⟩
      have border : isBorder opener = true := by simp [isBorder, beq_iff_eq.1 opens]
      have apart : close ≠ t := fun same => by simp [isBorder, ← same, closes] at inner
      rcases List.append_eq_append_iff.1 (closeParen?_append list) with
        ⟨a, eq, eq'⟩ | ⟨c, eq, eq'⟩
      · cases a with
        | nil => exact absurd (List.cons.inj eq').1 apart
        | cons u f =>
          obtain ⟨rfl, rfl⟩ := List.cons.inj eq'
          exact ⟨f, border, .inr ⟨by rw [eq], rfl⟩⟩
      · cases c with
        | nil => exact absurd (List.cons.inj eq').1.symm apart
        | cons u r =>
          obtain ⟨rfl, rfl⟩ := List.cons.inj eq'
          exact ⟨more, border, .inl ⟨r, rfl, eq, rfl⟩⟩
    · cases list

def EndsAs (front f : List Token) : Prop := ∃ g u, isBorder u = true ∧ front = g ++ u :: f

/-- The second list is the beginning of the first one, up to a border. -/
def BeginsAs (rest r : List Token) : Prop :=
  r = rest ∨ ∃ u g, isBorder u = true ∧ rest = r ++ u :: g

variable {r : List Token} {u : Token}

theorem BeginsAs.cons (begins : BeginsAs rest r) (u : Token) : BeginsAs (u :: rest) (u :: r) := by
  rcases begins with rfl | ⟨v, g, border, rfl⟩
  · exact .inl rfl
  · exact .inr ⟨v, g, border, rfl⟩

theorem BeginsAs.head (begins : BeginsAs (u :: rest) r) (inner : isBorder u = false) :
    ∃ r', r = u :: r' := by
  rcases begins with rfl | ⟨v, g, border, eq⟩
  · exact ⟨rest, rfl⟩
  · cases r with
    | nil =>
      obtain ⟨rfl, -⟩ := List.cons.inj eq
      exact absurd border (by simp [inner])
    | cons w r' => exact ⟨r', by rw [(List.cons.inj eq).1]⟩

theorem BeginsAs.of_cons (begins : BeginsAs (u :: rest) (u :: r)) : BeginsAs rest r := by
  rcases begins with eq | ⟨v, g, border, eq⟩
  · exact .inl (List.cons.inj eq).2
  · exact .inr ⟨v, g, border, (List.cons.inj eq).2⟩

theorem EndsAs.cons {f : List Token} (ends : EndsAs front f) (u : Token) :
    EndsAs (u :: front) f := by
  obtain ⟨g, v, border, rfl⟩ := ends
  exact ⟨u :: g, v, border, rfl⟩

theorem splitPieces_head (ts : List Token) :
    ∀ depth, ∃ first more, splitPieces depth ts = first :: more ∧ BeginsAs ts first := by
  induction ts with
  | nil => exact fun depth => ⟨[], [], rfl, .inl rfl⟩
  | cons u rest ih =>
    intro depth
    simp only [splitPieces]
    split
    · rename_i comma
      have border : isBorder u = true := by
        simp [isBorder, beq_iff_eq.1 (Bool.and_eq_true_iff.1 comma).2]
      exact ⟨[], _, rfl, .inr ⟨u, rest, border, rfl⟩⟩
    · obtain ⟨first, more, eq, begins⟩ := ih (depthAcross depth u)
      rw [eq]
      exact ⟨u :: first, more, rfl, begins.cons u⟩

theorem splitPieces_locate (inner : isBorder t = false) (front : List Token) :
    ∀ depth, ∃ first more, splitPieces depth (front ++ t :: rest) = first :: more ∧
      ((∃ r, first = front ++ t :: r ∧ BeginsAs rest r) ∨
        ∃ f r, f ++ t :: r ∈ more ∧ EndsAs front f ∧ BeginsAs rest r) := by
  induction front with
  | nil =>
    intro depth
    obtain ⟨first, more, eq, begins⟩ := splitPieces_head rest (depthAcross depth t)
    refine ⟨t :: first, more, ?_, .inl ⟨first, rfl, begins⟩⟩
    have other : t.kind ≠ .symbol .comma := fun comma => by simp [isBorder, comma] at inner
    simp [splitPieces, other, eq]
  | cons u front ih =>
    intro depth
    simp only [splitPieces, List.cons_append]
    split
    · rename_i comma
      have border : isBorder u = true := by
        simp [isBorder, beq_iff_eq.1 (Bool.and_eq_true_iff.1 comma).2]
      obtain ⟨first, more, eq, ⟨r, rfl, begins⟩ | ⟨f, r, mem, ends, begins⟩⟩ := ih 0
      · exact ⟨[], _, rfl, .inr ⟨front, r, by simp [eq], ⟨[], u, border, rfl⟩, begins⟩⟩
      · exact ⟨[], _, rfl, .inr ⟨f, r, by simp [eq, mem], ends.cons u, begins⟩⟩
    · obtain ⟨first, more, eq, ⟨r, rfl, begins⟩ | ⟨f, r, mem, ends, begins⟩⟩ :=
        ih (depthAcross depth u)
      · rw [eq]
        exact ⟨_, _, rfl, .inl ⟨r, rfl, begins⟩⟩
      · rw [eq]
        exact ⟨_, _, rfl, .inr ⟨f, r, mem, ends.cons u, begins⟩⟩

theorem BeginsAs.trans {r r' : List Token} (first : BeginsAs rest r) (second : BeginsAs r r') :
    BeginsAs rest r' := by
  rcases first with rfl | ⟨u, g, border, rfl⟩
  · exact second
  · rcases second with rfl | ⟨v, h, border', rfl⟩
    · exact .inr ⟨u, g, border, rfl⟩
    · exact .inr ⟨v, h ++ u :: g, border', by simp⟩

theorem not_isMember_of_isBorder (border : isBorder u = true) : u.kind.isMember = false := by
  unfold isBorder at border
  cases kind : u.kind with
  | symbol s => cases s <;> simp_all [TokenKind.isMember]
  | _ => rfl

def endsInMember (ts : List Token) : Bool := ts.getLast?.any (·.kind.isMember)

theorem endsInMember_border (border : isBorder u = true) (g f : List Token) :
    endsInMember (g ++ u :: f) = endsInMember f := by
  unfold endsInMember
  cases f with
  | nil => simpa using not_isMember_of_isBorder border
  | cons v f => simp [List.getLast?_append, List.getLast?_cons]

/-- A word behind the tokens is the name of an object that `New` makes. A `New` may be such a name
itself. -/
def behindNew (ts : List Token) : Bool :=
  ts.foldl (fun governed u => !governed && u.kind == .keyword .New) false

theorem behindNew_append (g f : List Token) :
    behindNew (g ++ f) =
      f.foldl (fun governed u => !governed && u.kind == .keyword .New) (behindNew g) :=
  List.foldl_append

theorem behindNew_other (other : u.kind ≠ .keyword .New) (g f : List Token) :
    behindNew (g ++ u :: f) = behindNew f := by
  have plain : (u.kind == .keyword .New) = false := by simpa using other
  rw [behindNew_append, List.foldl_cons, plain, Bool.and_false, behindNew]

theorem behindNew_border (border : isBorder u = true) (g f : List Token) :
    behindNew (g ++ u :: f) = behindNew f :=
  behindNew_other (fun new => by simp [isBorder, new] at border) g f

theorem behindNew_object (new : u.kind = .keyword .New) (object : Token) (f : List Token) :
    behindNew (u :: object :: f) = behindNew f := by
  simp [behindNew, new]

theorem exists_of_behindNew {ts : List Token} (behind : behindNew ts = true) :
    ∃ front new, ts = front ++ [new] ∧ new.kind = .keyword .New ∧ behindNew front = false := by
  rcases List.eq_nil_or_concat ts with rfl | ⟨front, new, rfl⟩
  · cases behind
  · rw [List.concat_eq_append, behindNew_append] at behind
    exact ⟨front, new, List.concat_eq_append, by simpa [and_comm] using behind⟩

/-- A token that stands behind `front`, with `rest` behind it, begins a part of the place. -/
def BeginsPart (σ : Symbols) (p : Place) (front : List Token) (t : Token) (rest : List Token) :
    Prop :=
  ∃ mode before r, Part σ p ⟨mode, before, t :: r⟩ ∧ BeginsAs rest r ∧
    before.head?.any (·.kind.isMember) = endsInMember (p.before.reverse ++ front) ∧
    (mode = .target → p.mode = .target)

namespace BeginsPart

variable {p q : Place} {front f r : List Token}

theorem tail (part : BeginsPart σ q f t rest) {lead : String} (eq : p.text σ = lead ++ q.text σ)
    (mode : q.mode = p.mode)
    (last : endsInMember (q.before.reverse ++ f) = endsInMember (p.before.reverse ++ front)) :
    BeginsPart σ p front t rest := by
  obtain ⟨m, b, r, more, begins, member, target⟩ := part
  exact ⟨m, b, r, .tail lead eq more, begins, member.trans last, fun same => mode ▸ target same⟩

theorem within (part : BeginsPart σ q f t r) (wrap : ∀ {o : Place}, Part σ q o → Part σ p o)
    (mode : q.mode ≠ .target) (outset : q.before = []) (begins : BeginsAs rest r)
    (last : endsInMember f = endsInMember (p.before.reverse ++ front)) :
    BeginsPart σ p front t rest := by
  obtain ⟨m, b, r', more, begins', member, target⟩ := part
  rw [outset] at member
  exact ⟨m, b, r', wrap more, begins.trans begins', member.trans last,
    fun same => absurd (target same) mode⟩

end BeginsPart

def BeginsBelow (σ : Symbols) (t : Token) (n : Nat) : Prop :=
  ∀ mode before (f r : List Token), (f ++ t :: r).length < n → behindNew f = false →
    BeginsPart σ ⟨mode, before, f ++ t :: r⟩ f t r

section Step

variable {u : Token} {front inside tail : List Token} {close : Token}

theorem beginsPart_new (inner : isBorder t = false)
    (below : BeginsBelow σ t (u :: object :: (front ++ t :: rest)).length)
    (fresh : behindNew front = false) (new : u.kind = .keyword .New) (word : object.isWord = true)
    (list : argumentList? (front ++ t :: rest) = some (inside, close, tail)) :
    BeginsPart σ ⟨mode, before, u :: object :: (front ++ t :: rest)⟩ (u :: object :: front) t
      rest := by
  have size := length_argumentList? list
  have text := @write_new_list σ mode before u object _ inside tail close new word list
  obtain ⟨closes, opener, f, opens, ⟨r, rfl, rfl, rfl⟩ | ⟨rfl, rfl⟩⟩ :=
    argumentList?_locate inner list
  · have part := below .value [] f r (by simp only [List.length_cons]; omega)
      ((behindNew_border opens [] f).symm.trans fresh)
    rw [@String.append_assoc _ ")"] at text
    refine part.within (fun more => ?_) (by simp) rfl (.inr ⟨close, tail, closes, rfl⟩) ?_
    · exact .inside (q := ⟨.value, [], f ++ t :: r⟩) _ _ text more
    · exact (endsInMember_border opens (before.reverse ++ [u, object]) f).symm.trans (by simp)
  · have part := below mode (close :: before) f rest (by simp only [List.length_cons]; omega)
      ((behindNew_border closes (opener :: inside) f).symm.trans fresh)
    refine part.tail text rfl ?_
    have here := endsInMember_border closes before.reverse f
    have whole := endsInMember_border closes (before.reverse ++ u :: object :: opener :: inside) f
    simpa using here.trans whole.symm

theorem argumentMode_ne_target (name : String) (count index : Nat) :
    argumentMode name count index ≠ .target := by
  unfold argumentMode
  repeat' split
  all_goals simp

theorem write_builtin {word value : String} (name : u.kind = .identifier)
    (spelt : lower u.text = word) (notIif : word ≠ "iif") (notSwitch : word ≠ "switch")
    (free : before.head?.any (·.kind.isMember) = false) (use : mode ≠ .target)
    (list : argumentList? rest = some (inside, close, tail))
    (found : builtin? σ word (splitArguments inside)
      ((splitArguments inside).map fun piece => trim (write σ .value [] piece)) = some value) :
    write σ mode before (u :: rest) =
      gapText before u ++ value ++ write σ mode (close :: before) tail := by
  have text := @write_call σ before u mode _ inside tail close (by simp [name])
    (by simp [Token.isWord, TokenKind.isWord, isOperatorWord, name]) list
  have notTarget : (mode == .target) = false := by simpa using use
  have plain (count index : Nat) : argumentMode word count index = .value := by
    simp [argumentMode, notIif, notSwitch]
  have values : (splitArguments inside).mapIdx (fun _ piece => trim (write σ .value [] piece)) =
      (splitArguments inside).map fun piece => trim (write σ .value [] piece) :=
    List.ext_getElem? fun index => by simp
  rw [text, callText]
  simp only [free, Bool.false_and, Bool.false_eq_true, if_false, notTarget, namedCall, spelt,
    plain, values, found]

theorem splitArguments_locate {f r : List Token} (inner : isBorder t = false) :
    ∃ f' r', f' ++ t :: r' ∈ splitArguments (f ++ t :: r) ∧ (f' = f ∨ EndsAs f f') ∧
      BeginsAs r r' := by
  obtain ⟨first, more, eq, ⟨r', rfl, begins⟩ | ⟨f', r', mem, ends, begins⟩⟩ :=
    @splitPieces_locate r t inner f 0
  · exact ⟨f, r', by simp [splitArguments, eq], .inl rfl, begins⟩
  · exact ⟨f', r', by simp [splitArguments, eq, mem], .inr ends, begins⟩

theorem part_argument {piece : List Token} (new : (u.kind == .keyword .New) = false)
    (word : (u.isWord && !isOperatorWord u.kind) = true)
    (list : argumentList? rest = some (inside, close, tail)) (mem : piece ∈ splitArguments inside)
    (named : (before.head?.any (·.kind.isMember) && mode != .target) = false) :
    ∃ use ≠ .target, ∀ {o : Place}, Part σ ⟨use, [], piece⟩ o →
      Part σ ⟨mode, before, u :: rest⟩ o := by
  have text := @write_call σ before u mode _ inside tail close new word list
  unfold callText at text
  dsimp only at text
  rw [named, if_neg Bool.false_ne_true] at text
  obtain ⟨index, inRange, rfl⟩ := List.getElem_of_mem mem
  generalize values : (splitArguments inside).mapIdx (fun index piece => trim (write σ
    (if mode == .target then .value
      else argumentMode (lower u.text) (splitArguments inside).length index) [] piece)) = vs at text
  refine ⟨if mode == .target then .value
    else argumentMode (lower u.text) (splitArguments inside).length index, ?_, fun more => ?_⟩
  · split
    · simp
    · exact argumentMode_ne_target _ _ _
  · refine .argument (gapText before u) (write σ mode (close :: before) tail) u.text
      (splitArguments inside) vs ?_ ?_ more
    · rw [Place.text, text]
      split
      · exact .inl rfl
      · exact .inr rfl
    · rw [← values]
      exact List.mem_mapIdx.2 ⟨index, inRange, rfl⟩

theorem beginsPart_call (inner : isBorder t = false)
    (below : BeginsBelow σ t (u :: (front ++ t :: rest)).length) (fresh : behindNew front = false)
    (new : (u.kind == .keyword .New) = false) (word : (u.isWord && !isOperatorWord u.kind) = true)
    (list : argumentList? (front ++ t :: rest) = some (inside, close, tail)) :
    BeginsPart σ ⟨mode, before, u :: (front ++ t :: rest)⟩ (u :: front) t rest := by
  have size := length_argumentList? list
  have text := @write_call σ before u mode _ inside tail close new word list
  obtain ⟨closes, opener, f, opens, ⟨r, rfl, rfl, rfl⟩ | ⟨rfl, rfl⟩⟩ :=
    argumentList?_locate inner list
  · have begins : BeginsAs (r ++ close :: tail) r := .inr ⟨close, tail, closes, rfl⟩
    have start := endsInMember_border opens (before.reverse ++ [u]) f
    cases member : before.head?.any (·.kind.isMember) && mode != .target with
    | true =>
      have part := below .value [] f r (by simp only [List.length_cons]; omega)
        ((behindNew_border opens [] f).symm.trans fresh)
      refine part.within (fun more => ?_) (by simp) rfl begins (by simpa using start.symm)
      unfold callText at text
      dsimp only at text
      rw [member, if_pos rfl, ← String.append_assoc, ← String.append_assoc, ← String.append_assoc,
        @String.append_assoc _ ")"] at text
      exact .inside (q := ⟨.value, [], f ++ t :: r⟩) _ _ text more
    | false =>
      obtain ⟨f', r', mem, ends, begins'⟩ := @splitArguments_locate t f r inner
      obtain ⟨use, value, wrap⟩ :=
        @part_argument σ mode before _ u _ tail close _ new word list mem member
      have short := length_le_of_mem_splitArguments mem
      have fresh' : behindNew f' = false := by
        rcases ends with rfl | ⟨g, v, border, rfl⟩
        · exact (behindNew_border opens [] f').symm.trans fresh
        · exact (behindNew_border border (opener :: g) f').symm.trans fresh
      have part := below use [] f' r' (by simp only [List.length_cons]; omega) fresh'
      refine part.within wrap value rfl (begins.trans begins') ?_
      rcases ends with rfl | ⟨g, v, border, rfl⟩
      · simpa using start.symm
      · simpa using (endsInMember_border border (before.reverse ++ u :: opener :: g) f').symm
  · have part := below mode (close :: before) f rest (by simp only [List.length_cons]; omega)
      ((behindNew_border closes (opener :: inside) f).symm.trans fresh)
    refine part.tail text rfl ?_
    have here := endsInMember_border closes before.reverse f
    have whole := endsInMember_border closes (before.reverse ++ u :: opener :: inside) f
    simpa using here.trans whole.symm

end Step

theorem beginsPart (σ : Symbols) (inner : isBorder t = false) (mode : Mode)
    (before front rest : List Token) (fresh : behindNew front = false) :
    BeginsPart σ ⟨mode, before, front ++ t :: rest⟩ front t rest := by
  induction size : (front ++ t :: rest).length using Nat.strongRecOn
    generalizing mode before front rest with
  | ind n ih =>
  subst size
  have below : BeginsBelow σ t (front ++ t :: rest).length :=
    fun mode before f r less fresh => ih _ less mode before f r fresh rfl
  cases front with
  | nil => exact ⟨mode, before, rest, .refl _, .inl rfl, by simp [endsInMember], id⟩
  | cons u front =>
    -- the next token, where `u` stands by itself
    have next {lead : String} (fresh' : behindNew front = false)
        (eq : write σ mode before (u :: (front ++ t :: rest)) =
          lead ++ write σ mode (u :: before) (front ++ t :: rest)) :
        BeginsPart σ ⟨mode, before, u :: front ++ t :: rest⟩ (u :: front) t rest :=
      (below mode (u :: before) front rest (by simp) fresh').tail eq rfl (by simp)
    by_cases new : u.kind = .keyword .New
    · cases front with
      | nil => simp [behindNew, new] at fresh
      | cons object front =>
        have fresh' : behindNew front = false :=
          (behindNew_object new object front).symm.trans fresh
        cases word : object.isWord with
        | false =>
          have other : object.kind ≠ .keyword .New := fun same => by
            simp [Token.isWord, TokenKind.isWord, same] at word
          exact next ((behindNew_other other [] front).trans fresh') (write_new_alone new word)
        | true =>
          cases list : argumentList? (front ++ t :: rest) with
          | none =>
            have less : (front ++ t :: rest).length < (u :: object :: front ++ t :: rest).length :=
              Nat.lt_succ_of_lt (Nat.lt_succ_self _)
            exact (below mode (object :: u :: before) front rest less fresh').tail
              (write_new_bare new word list) rfl (by simp)
          | some found => exact beginsPart_new inner below fresh' new word list
    · have fresh' : behindNew front = false := (behindNew_other new [] front).symm.trans fresh
      have notNew : (u.kind == .keyword .New) = false := by simpa using new
      cases word : u.isWord && !isOperatorWord u.kind with
      | false => exact next fresh' (write_other notNew word)
      | true =>
        cases list : argumentList? (front ++ t :: rest) with
        | none => exact next fresh' (write_name notNew word list)
        | some found => exact beginsPart_call inner below fresh' notNew word list

end BasicSketch.Cpp
