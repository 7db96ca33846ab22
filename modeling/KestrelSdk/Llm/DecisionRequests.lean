import KestrelSdk.Llm.Decisions

namespace KestrelSdk.Llm.Decisions

open Json (Str Bytes Key Value Printer ReprError str Renders)
open Frozen (Reads IsJson IsJsonEntries Genuine freezeJson thawJson levels)
open KestrelSdk.Order (Mapping)

/-! What the rules ask of a request. -/

/-- `P` holds of every item up to the first one that is not in order. -/
def UpTo {α : Type} (ok P : α → Prop) : List α → Prop
  | [] => True
  | a :: l => P a ∧ (ok a → UpTo ok P l)

def Label.Ok (l : Label) : Prop := l.ident.isSome = true

def Field.Ok (maxChars : Nat) : Field → Prop
  | .str t => Encoding.strip t.val ≠ [] ∧ t.val.length ≤ maxChars
  | _ => False

def Field.OptionalOk : Field → Prop
  | .none => True
  | value => value.Ok MAX_DESCRIPTION_CHARS

def CardinalityOk (count : Nat) : Prop := MIN_OPTIONS ≤ count ∧ count ≤ MAX_OPTIONS

def OptionOk (e : Label × Field) : Prop := e.1.Ok ∧ e.2.OptionalOk

def Candidate.Ok : Candidate → Prop
  | .choice instructions options => instructions.Ok MAX_INSTRUCTIONS_CHARS ∧
      ∃ items ∈ options, CardinalityOk items.length ∧ ∀ e ∈ items, OptionOk e
  | .score instructions levels => instructions.Ok MAX_INSTRUCTIONS_CHARS ∧
      ∃ items ∈ levels, CardinalityOk items.length ∧ ∀ e ∈ items, e.Ok MAX_DESCRIPTION_CHARS
  | .noul instructions trueMeans falseMeans =>
      instructions.Ok MAX_INSTRUCTIONS_CHARS ∧ trueMeans.OptionalOk ∧ falseMeans.OptionalOk
  | .other _ => False

def ItemOk (e : Label × Candidate) : Prop := e.1.Ok ∧ e.2.Ok

mutual
/-- How deep tuples nest in a label. -/
def Label.height : Label → Nat
  | .tuple items => Label.heightItems items + 1
  | _ => 0
  termination_by structural l => l

def Label.heightItems : List Label → Nat
  | [] => 0
  | l :: ls => max (Label.height l) (Label.heightItems ls)
  termination_by structural ls => ls
end

mutual
/-- The integers in a label. -/
def Label.ints : Label → List Int
  | .int i => [i]
  | .tuple items => Label.intsItems items
  | _ => []
  termination_by structural l => l

def Label.intsItems : List Label → List Int
  | [] => []
  | l :: ls => Label.ints l ++ Label.intsItems ls
  termination_by structural ls => ls
end

/-- An id that the pattern takes, or one that `repr` renders: it nests no deeper than the recursion
limit allows, and has no integer of more digits than `int.__repr__` converts. -/
def Label.Shown (py : Host) (l : Label) : Prop := l.Ok ∨ Renders py.json.nesting l.height l.ints

/-- The option ids of a choice are shown, as far as they are looked at. -/
def Candidate.Shown (py : Host) : Candidate → Prop
  | .choice instructions options => instructions.Ok MAX_INSTRUCTIONS_CHARS →
      ∀ items ∈ options, CardinalityOk items.length → UpTo OptionOk (fun e => e.1.Shown py) items
  | _ => True

/-- The ids of a request are shown, as far as they are looked at: the first one against the pattern,
where no other rule is broken before it, is one that `repr` renders. -/
def Argument.Shown {ι : Type} (py : Host) : Argument ι → Prop
  | .request r => ∀ items ∈ r.questions,
      1 ≤ items.length ∧ items.length ≤ MAX_QUESTIONS →
        UpTo ItemOk (fun e => e.1.Shown py ∧ (e.1.Ok → e.2.Shown py)) items
  | .other _ => True

/-! What a validated request says. -/

namespace Question

def type : Question → Str
  | .choice .. => str "choice"
  | .score .. => str "score"
  | .noul .. => str "noul"

def instructions : Question → Text
  | .choice instructions _ => instructions
  | .score instructions _ => instructions
  | .noul instructions _ _ => instructions

/-- The options, the levels, or what true and false mean where one of the two is said. -/
def criteria : Question → Option Value
  | .choice _ options =>
    some (.dict (options.entries.map fun e => (.str e.1.val, optionalText e.2)))
  | .score _ levels => some (.list (levels.map fun level => .str level.val))
  | .noul _ none none => none
  | .noul _ trueMeans falseMeans => some (.dict [(.str (str "true"), optionalText trueMeans),
      (.str (str "false"), optionalText falseMeans)])

/-- The type, the instructions and the criteria of a question. -/
def described (q : Question) : Value :=
  .dict ([(.str (str "type"), .str q.type), (.str (str "instructions"), .str q.instructions.val)] ++
    q.criteria.toList.map fun c => (.str (str "criteria"), c))

end Question

/-- The questions by their ids. -/
def described (questions : Mapping Ident Question) : Value :=
  .dict (questions.entries.map fun e => (.str e.1.val, e.2.described))

/-- A snapshot of a state: its canonical JSON has the bytes that it counts, within the maximum, and
decodes to the state and to the type, the instructions and the criteria of each frozen question. -/
structure Describes {ι : Type} {py : Host} (o : Objects py ι) (x : ι)
    (v : ValidatedDecisionRequest) : Prop where
  state : Reads o.graph (thawJson v.state) x
  depth : levels (thawJson v.state) ≤ MAX_STATE_DEPTH
  json : ∃ b text, v.canonicalJson = some b ∧ b.length = v.encodedBytes ∧
    v.encodedBytes ≤ MAX_REQUEST_BYTES ∧ Json.decodeUtf8 b = some text ∧
    py.json.loads text = .ok (.dict [(.str (str "state"), thawJson v.state),
      (.str (str "questions"), described v.questions)])

/-- `DecisionRequestInvalid`. -/
def Failure.IsInvalid (e : Failure) : Prop := ∃ rule message, e = .invalid rule message

/-- Nothing but `DecisionRequestInvalid` is raised. -/
def Contained {β : Type} (r : Except Failure β) : Prop := ∀ e, r = .error e → e.IsInvalid

/-- A validation that raises nothing but `DecisionRequestInvalid`, and of which a snapshot says what
the request holds. -/
def Faithful {ι : Type} [DecidableEq ι] (py : Host) (o : Objects py ι) (argument : Argument ι) :
    Prop :=
  Contained (validateDecisionRequest py o argument) ∧
    ∀ v, validateDecisionRequest py o argument = .ok v →
      ∃ request, argument = .request request ∧ Describes o request.state v

/-! The checks. -/

/-- A check passes under `P`, and raises nothing else under `Q`. -/
structure Meets {β : Type} (r : Except Failure β) (P Q : Prop) : Prop where
  ok : (∃ a, r = .ok a) ↔ P
  contained : Contained r ↔ Q

section Meets

variable {β γ : Type} {r : Except Failure β} {P P' Q Q' : Prop}

theorem contained_ok (a : β) : Contained (.ok a) := by
  intro e h
  cases h

theorem contained_error (e : Failure) : Contained (.error e : Except Failure β) ↔ e.IsInvalid := by
  constructor
  · intro h
    exact h e rfl
  · intro h e' he
    cases he
    exact h

theorem Meets.congr (h : Meets r P Q) (hP : P ↔ P') (hQ : Q ↔ Q') : Meets r P' Q' :=
  ⟨h.ok.trans hP, h.contained.trans hQ⟩

theorem Meets.pure (a : β) : Meets (.ok a : Except Failure β) True True :=
  ⟨iff_of_true ⟨a, rfl⟩ trivial, iff_of_true (contained_ok a) trivial⟩

theorem Meets.refuse (rule : Rule) (message : Str) :
    Meets (refuse rule message : Except Failure β) False True := by
  constructor
  · apply iff_of_false
    · rintro ⟨a, ha⟩
      cases ha
    · exact not_false
  · exact iff_of_true ((contained_error _).2 ⟨_, _, rfl⟩) trivial

theorem Meets.bind {k : β → Except Failure γ} (h : Meets r P Q) (hk : ∀ a, Meets (k a) P' Q') :
    Meets (r >>= k) (P ∧ P') (Q ∧ (P → Q')) := by
  cases r with
  | error e =>
    have hP : ¬ P := fun hP => by
      obtain ⟨a, ha⟩ := h.ok.2 hP
      cases ha
    constructor
    · apply iff_of_false
      · rintro ⟨a, ha⟩
        cases ha
      · exact fun hPP' => hP hPP'.1
    · have hcontained : Contained (.error e : Except Failure γ) ↔ Q :=
        (contained_error e).trans ((contained_error e).symm.trans h.contained)
      exact hcontained.trans (iff_self_and.2 fun _ hp => absurd hp hP)
  | ok a =>
    have hP : P := h.ok.1 ⟨a, rfl⟩
    have hQ : Q := h.contained.1 (contained_ok a)
    constructor
    · exact (hk a).ok.trans (iff_and_self.2 fun _ => hP)
    · apply (hk a).contained.trans
      exact ⟨fun hQ' => ⟨hQ, fun _ => hQ'⟩, fun hboth => hboth.2 hP⟩

theorem Meets.map (f : β → γ) (h : Meets r P Q) : Meets (r.map f) P Q := by
  cases r with
  | error e =>
    constructor
    · rw [← h.ok]
      constructor
      · rintro ⟨a, ha⟩
        cases ha
      · rintro ⟨a, ha⟩
        cases ha
    · exact (contained_error e).trans ((contained_error e).symm.trans h.contained)
  | ok a =>
    constructor
    · exact iff_of_true ⟨f a, rfl⟩ (h.ok.1 ⟨a, rfl⟩)
    · exact iff_of_true (contained_ok _) (h.contained.1 (contained_ok a))

end Meets

mutual
/-- `repr` of a label raises exactly for its nesting or for an integer in it. -/
theorem repr_ok (p : Printer) : ∀ (frames : Nat) (l : Label),
    (∃ t, l.repr p frames = .ok t) ↔ Renders frames l.height l.ints
  | frames, .none => by
    rw [Label.repr]
    exact iff_of_true ⟨_, rfl⟩ (Printer.renders_leaf frames)
  | frames, .bool b => by
    rw [Label.repr]
    exact iff_of_true ⟨_, rfl⟩ (Printer.renders_leaf frames)
  | frames, .int i => by
    rw [Label.repr, Printer.int_ok]
    simp only [Renders, Label.height, Label.ints, Nat.zero_le, true_and, List.mem_singleton,
      forall_eq]
  | frames, .float x => by
    rw [Label.repr]
    exact iff_of_true ⟨_, rfl⟩ (Printer.renders_leaf frames)
  | frames, .str s => by
    rw [Label.repr]
    exact iff_of_true ⟨_, rfl⟩ (Printer.renders_leaf frames)
  | 0, .tuple ls => by
    rw [Label.repr]
    apply iff_of_false
    · rintro ⟨t, ht⟩
      cases ht
    · intro h
      have hroom := h.1
      simp only [Label.height] at hroom
      omega
  | frames + 1, .tuple ls => by
    rw [Label.repr, Printer.map_ok, reprItems_ok p frames ls]
    simp only [Renders, Label.height, Label.ints, Nat.add_le_add_iff_right]
  | frames, .object n => by
    rw [Label.repr]
    exact iff_of_true ⟨_, rfl⟩ (Printer.renders_leaf frames)
  termination_by structural _ l => l

theorem reprItems_ok (p : Printer) : ∀ (frames : Nat) (ls : List Label),
    (∃ t, Label.reprItems p frames ls = .ok t) ↔
      Renders frames (Label.heightItems ls) (Label.intsItems ls)
  | frames, [] => by
    rw [Label.reprItems]
    exact iff_of_true ⟨_, rfl⟩ (Printer.renders_leaf frames)
  | frames, l :: ls => by
    have hbind := Printer.bind_ok (r := l.repr p frames) fun text =>
      Printer.map_ok (r := Label.reprItems p frames ls) fun texts => text :: texts
    rw [Label.reprItems, Label.heightItems, Label.intsItems, Json.renders_append,
      ← repr_ok p frames l, ← reprItems_ok p frames ls]
    exact hbind
  termination_by structural _ ls => ls
end

section Checks

variable (py : Host)

theorem meets_id (l : Label) (what : Str) : Meets (checkId py l what) l.Ok (l.Shown py) := by
  unfold checkId Label.Shown Label.Ok
  rw [← repr_ok py.printer]
  cases hident : l.ident with
  | some s => exact (Meets.pure s).congr (by simp) (by simp)
  | none =>
    cases l.repr py.printer py.json.nesting with
    | ok t => exact (Meets.refuse _ _).congr (by simp) (by simp)
    | error e =>
      constructor
      · apply iff_of_false
        · rintro ⟨s, hs⟩
          cases hs
        · simp
      · rw [contained_error]
        apply iff_of_false
        · rintro ⟨rule, message, h⟩
          cases h
        · simp

theorem meets_text (value : Field) (what : Str) (maxChars : Nat) :
    Meets (checkText value what maxChars) (value.Ok maxChars) True := by
  cases value with
  | str t =>
    unfold checkText Field.Ok
    dsimp only
    split
    case isTrue hempty => exact (Meets.refuse _ _).congr (by simp [hempty]) Iff.rfl
    case isFalse hempty =>
      split
      case isTrue hlong => exact (Meets.refuse _ _).congr (by simp [hempty, hlong]) Iff.rfl
      case isFalse hlong => exact (Meets.pure t).congr (by simp [hempty]; omega) Iff.rfl
  | none => exact Meets.refuse _ _
  | other => exact Meets.refuse _ _

theorem meets_optionalText (value : Field) (what : Str) :
    Meets (checkOptionalText value what) value.OptionalOk True := by
  cases value with
  | none => exact Meets.pure none
  | str t => exact (meets_text (.str t) what MAX_DESCRIPTION_CHARS).map some
  | other => exact (meets_text .other what MAX_DESCRIPTION_CHARS).map some

theorem meets_cardinality (count : Nat) (what : Str) :
    Meets (checkCardinality count what) (CardinalityOk count) True := by
  unfold checkCardinality CardinalityOk
  split
  case isTrue h => exact (Meets.pure ()).congr (by simp [h]) Iff.rfl
  case isFalse h => exact (Meets.refuse _ _).congr (by simpa using h) Iff.rfl

theorem meets_options (place : Str) (items : List (Label × Field))
    (options : Mapping Ident (Option Text)) :
    Meets (freezeOptions py place items options) (∀ e ∈ items, OptionOk e)
      (UpTo OptionOk (fun e => e.1.Shown py) items) := by
  induction items generalizing options with
  | nil => exact (Meets.pure options).congr (by simp) (by simp [UpTo])
  | cons e items ih =>
    obtain ⟨l, value⟩ := e
    rw [freezeOptions]
    have hstep := (meets_id py l (place ++ str " option id")).bind fun option_id =>
      (meets_optionalText value
        (place ++ str " option " ++ py.printer.string option_id.val ++ str " description")).bind
          fun description => ih (options.set option_id description)
    apply hstep.congr
    · simp [OptionOk, and_assoc]
    · simp [UpTo, OptionOk]

theorem meets_levels (place : Str) (index : Nat) (levels : List Field) :
    Meets (freezeLevels place index levels) (∀ e ∈ levels, e.Ok MAX_DESCRIPTION_CHARS) True := by
  induction levels generalizing index with
  | nil => exact (Meets.pure []).congr (by simp) Iff.rfl
  | cons level levels ih =>
    rw [freezeLevels]
    have hstep := (meets_text level (place ++ str " level " ++ Json.natText index)
      MAX_DESCRIPTION_CHARS).bind fun level => (ih (index + 1)).map fun levels => level :: levels
    apply hstep.congr
    · simp
    · simp

/-- A question is taken when it is in order, and its option ids are all that can raise another
error. -/
theorem meets_question (question_id : Ident) (question : Candidate) :
    Meets (freezeQuestion py question_id question) question.Ok (question.Shown py) := by
  unfold freezeQuestion
  dsimp only
  cases question with
  | choice instructions options =>
    cases options with
    | none =>
      apply Meets.congr (Meets.bind (meets_text instructions _ MAX_INSTRUCTIONS_CHARS)
        fun _ => Meets.refuse .options _)
      · simp [Candidate.Ok]
      · simp [Candidate.Shown]
    | some items =>
      apply Meets.congr (Meets.bind (meets_text instructions _ MAX_INSTRUCTIONS_CHARS)
        fun _ => Meets.bind (meets_cardinality items.length _)
          fun _ => Meets.bind (meets_options py _ items .empty) fun _ => Meets.pure _)
      · simp [Candidate.Ok]
      · simp [Candidate.Shown]
  | score instructions levels =>
    cases levels with
    | none =>
      apply Meets.congr (Meets.bind (meets_text instructions _ MAX_INSTRUCTIONS_CHARS)
        fun _ => Meets.refuse .options _)
      · simp [Candidate.Ok]
      · simp [Candidate.Shown]
    | some items =>
      apply Meets.congr (Meets.bind (meets_text instructions _ MAX_INSTRUCTIONS_CHARS)
        fun _ => Meets.bind (meets_cardinality items.length _)
          fun _ => Meets.bind (meets_levels _ 0 items) fun _ => Meets.pure _)
      · simp [Candidate.Ok]
      · simp [Candidate.Shown]
  | noul instructions trueMeans falseMeans =>
    apply Meets.congr (Meets.bind (meets_text instructions _ MAX_INSTRUCTIONS_CHARS)
      fun _ => Meets.bind (meets_optionalText trueMeans _)
        fun _ => Meets.bind (meets_optionalText falseMeans _) fun _ => Meets.pure _)
    · simp [Candidate.Ok]
    · simp [Candidate.Shown]
  | other typeName => exact (Meets.refuse _ _).congr Iff.rfl Iff.rfl

theorem meets_questions (items : List (Label × Candidate)) (questions : Mapping Ident Question)
    (wire : Mapping Ident Value) :
    Meets (freezeQuestions py items questions wire) (∀ e ∈ items, ItemOk e)
      (UpTo ItemOk (fun e => e.1.Shown py ∧ (e.1.Ok → e.2.Shown py)) items) := by
  induction items generalizing questions wire with
  | nil => exact (Meets.pure (questions, wire)).congr (by simp) (by simp [UpTo])
  | cons e items ih =>
    obtain ⟨l, question⟩ := e
    rw [freezeQuestions]
    apply Meets.congr (Meets.bind (meets_id py l (str "question id")) fun question_id =>
      Meets.bind (meets_question py question_id question) fun form =>
        ih (questions.set question_id form.1) (wire.set question_id form.2))
    · simp [ItemOk, and_assoc]
    · simp only [UpTo, ItemOk]
      tauto

end Checks

/-! The wire form of the questions. -/

theorem bind_of_ok {β γ : Type} (a : β) (k : β → Except Failure γ) : (Except.ok a >>= k) = k a := rfl

/-- What holds whatever a step gives. -/
theorem ok_bind {β γ : Type} {r : Except Failure β} {k : β → Except Failure γ} {P : γ → Prop}
    (hk : ∀ a c, k a = .ok c → P c) : ∀ c, (r >>= k) = .ok c → P c := by
  intro c h
  cases r with
  | error e => cases h
  | ok a => exact hk a c h

/-- The form of a question says what the frozen question does. -/
theorem form_described (py : Host) (question_id : Ident) (question : Candidate) :
    ∀ r, freezeQuestion py question_id question = .ok r → r.2 = r.1.described := by
  unfold freezeQuestion
  dsimp only
  cases question with
  | choice instructions options =>
    apply ok_bind
    intro instructions
    apply ok_bind
    intro items
    apply ok_bind
    intro _
    apply ok_bind
    intro options r h
    cases h
    rfl
  | score instructions levels =>
    apply ok_bind
    intro instructions
    apply ok_bind
    intro items
    apply ok_bind
    intro _
    apply ok_bind
    intro levels r h
    cases h
    rfl
  | noul instructions trueMeans falseMeans =>
    apply ok_bind
    intro instructions
    apply ok_bind
    intro trueMeans
    apply ok_bind
    intro falseMeans r h
    cases h
    cases trueMeans with
    | none => cases falseMeans <;> rfl
    | some t => rfl
  | other typeName =>
    intro r h
    cases h

theorem put_map {κ α β : Type} [DecidableEq κ] (f : α → β) (k : κ) (v : α) (es : List (κ × α)) :
    Mapping.put k (f v) (es.map fun e => (e.1, f e.2)) =
      (Mapping.put k v es).map fun e => (e.1, f e.2) := by
  induction es with
  | nil => rfl
  | cons e es ih =>
    obtain ⟨l, w⟩ := e
    simp only [List.map_cons, Mapping.put]
    split
    · rfl
    · rw [ih]
      rfl

/-- The forms of the questions are what the frozen questions say. -/
theorem forms_described (py : Host) (items : List (Label × Candidate))
    (questions : Mapping Ident Question) (wire : Mapping Ident Value)
    (hwire : wire.entries = questions.entries.map fun e => (e.1, e.2.described)) :
    ∀ r, freezeQuestions py items questions wire = .ok r →
      r.2.entries = r.1.entries.map fun e => (e.1, e.2.described) := by
  induction items generalizing questions wire with
  | nil =>
    intro r h
    cases h
    exact hwire
  | cons e items ih =>
    obtain ⟨l, question⟩ := e
    rw [freezeQuestions]
    apply ok_bind
    intro question_id r h
    cases hform : freezeQuestion py question_id question with
    | error e =>
      rw [hform] at h
      cases h
    | ok form =>
      rw [hform] at h
      apply ih (questions.set question_id form.1) (wire.set question_id form.2) _ r h
      simp only [Mapping.set, hwire, form_described py question_id question form hform]
      exact put_map Question.described question_id form.1 questions.entries

theorem ident_ascii (s : Ident) : ∀ c ∈ s.val, c < 0x110000 := by
  obtain ⟨s, hs⟩ := s
  have hword : ∀ c, isIdChar c = true → c < 0x110000 := by
    intro c hc
    simp only [isIdChar, isWord, isAlnum, isLower, isUpper, isDigit, Bool.or_eq_true,
      Bool.and_eq_true, decide_eq_true_eq, beq_iff_eq] at hc
    omega
  cases s with
  | nil => cases hs
  | cons c s =>
    simp only [isId, Bool.and_eq_true, decide_eq_true_eq, List.all_eq_true] at hs
    intro d hd
    obtain rfl | hd := List.mem_cons.1 hd
    · exact hword d (by simp [isIdChar, hs.1.1])
    · exact hword d (hs.2 d hd)

/-! The wire form is JSON data. -/

section Sound

variable {f : Str → Json.PyFloat}

/-- JSON data of code points and of floats that their `repr` names. -/
def Sound (f : Str → Json.PyFloat) (v : Value) : Prop := IsJson v ∧ Genuine f v

theorem sound_dict (es : List (Str × Value)) (hnd : (es.map Prod.fst).Nodup)
    (hkeys : ∀ k ∈ es.map Prod.fst, ∀ c ∈ k, c < 0x110000)
    (hvalues : ∀ v ∈ es.map Prod.snd, Sound f v) :
    Sound f (.dict (es.map fun e => (.str e.1, e.2))) := by
  unfold Sound
  simp only [IsJson, Genuine]
  induction es with
  | nil => exact ⟨trivial, trivial⟩
  | cons e es ih =>
    simp only [List.map_cons, List.nodup_cons, List.forall_mem_cons] at hnd hkeys hvalues
    have hrest := ih hnd.2 hkeys.2 hvalues.2
    simp only [List.map_cons, IsJsonEntries, Frozen.GenuineEntries]
    refine ⟨⟨⟨e.1, rfl⟩, ?_, hvalues.1.1, hrest.1⟩, ?_, hvalues.1.2, hrest.2⟩
    · intro hmem
      simp only [List.map_map, List.mem_map, Function.comp, Key.str.injEq] at hmem
      exact hnd.1 (List.mem_map.2 hmem)
    · intro s hs
      cases hs
      exact hkeys.1

/-- A dict of ids. -/
theorem sound_fields {β : Type} (g : β → Value) (hg : ∀ b, Sound f (g b)) (m : Mapping Ident β) :
    Sound f (.dict (m.entries.map fun e => (.str e.1.val, g e.2))) := by
  have hdict := sound_dict (f := f) (m.entries.map fun e => (e.1.val, g e.2))
  simp only [List.map_map, Function.comp_def, List.forall_mem_map] at hdict
  apply hdict
  · have hkeys := m.nodup.map Subtype.val_injective
    simpa only [List.map_map, Function.comp_def] using hkeys
  · intro e _
    exact ident_ascii e.1
  · intro e _
    exact hg e.2

theorem sound_texts (levels : List Text) :
    Sound f (.list (levels.map fun level => .str level.val)) := by
  unfold Sound
  simp only [IsJson, Genuine]
  induction levels with
  | nil => exact ⟨trivial, trivial⟩
  | cons level levels ih => exact ⟨⟨trivial, ih.1⟩, level.property, ih.2⟩

theorem sound_optionalText (t : Option Text) : Sound f (optionalText t) := by
  cases t with
  | none => exact ⟨trivial, trivial⟩
  | some t => exact ⟨trivial, t.property⟩

theorem sound_criteria (q : Question) : ∀ c ∈ q.criteria, Sound f c := by
  have hmeans : ∀ t u : Option Text, Sound f (.dict [(.str (str "true"), optionalText t),
      (.str (str "false"), optionalText u)]) := by
    intro t u
    apply sound_dict [(str "true", optionalText t), (str "false", optionalText u)]
    · exact (by decide : [str "true", str "false"].Nodup)
    · exact (by decide : ∀ k ∈ [str "true", str "false"], ∀ c ∈ k, c < 0x110000)
    · simp only [List.map_cons, List.map_nil, List.forall_mem_cons]
      exact ⟨sound_optionalText t, sound_optionalText u, by simp⟩
  intro c hc
  cases q with
  | choice instructions options =>
    cases hc
    exact sound_fields optionalText sound_optionalText options
  | score instructions levels =>
    cases hc
    exact sound_texts levels
  | noul instructions trueMeans falseMeans =>
    cases trueMeans with
    | none =>
      cases falseMeans with
      | none => cases hc
      | some u =>
        cases hc
        exact hmeans none (some u)
    | some t =>
      cases hc
      exact hmeans (some t) falseMeans

theorem sound_described (q : Question) : Sound f q.described := by
  have htype : Sound f (.str q.type) := by
    cases q with
    | choice => exact ⟨trivial, (by decide : ∀ c ∈ str "choice", c < 0x110000)⟩
    | score => exact ⟨trivial, (by decide : ∀ c ∈ str "score", c < 0x110000)⟩
    | noul => exact ⟨trivial, (by decide : ∀ c ∈ str "noul", c < 0x110000)⟩
  have hinstructions : Sound f (.str q.instructions.val) := ⟨trivial, q.instructions.property⟩
  have hcriteria := sound_criteria (f := f) q
  unfold Question.described
  cases hc : q.criteria with
  | none =>
    apply sound_dict [(str "type", .str q.type), (str "instructions", .str q.instructions.val)]
    · exact (by decide : [str "type", str "instructions"].Nodup)
    · exact (by decide : ∀ k ∈ [str "type", str "instructions"], ∀ c ∈ k, c < 0x110000)
    · simp only [List.map_cons, List.map_nil, List.forall_mem_cons]
      exact ⟨htype, hinstructions, by simp⟩
  | some c =>
    apply sound_dict [(str "type", .str q.type),
      (str "instructions", .str q.instructions.val), (str "criteria", c)]
    · exact (by decide : [str "type", str "instructions", str "criteria"].Nodup)
    · exact (by decide : ∀ k ∈ [str "type", str "instructions", str "criteria"], ∀ c ∈ k, c < 0x110000)
    · simp only [List.map_cons, List.map_nil, List.forall_mem_cons]
      exact ⟨htype, hinstructions, hcriteria c hc, by simp⟩

theorem sound_questions (questions : Mapping Ident Question) : Sound f (described questions) :=
  sound_fields Question.described sound_described questions

end Sound

/-! The walk over the wire form. -/

section Wire

variable {ι : Type}

/-- The wire form of a state and of questions. -/
def wireValue (state questions : Value) : Value :=
  .dict [(.str (str "state"), state), (.str (str "questions"), questions)]

/-- The new dict reads as the wire form of what the caller's object reads as. -/
theorem reads_request {g : Frozen.Graph ι} {x : ι} {q v : Value} (hq : IsJson q)
    (h : Reads (wireGraph g x q) v .request) : ∃ s, Reads g s x ∧ v = wireValue s q := by
  obtain ⟨es, rfl, hes⟩ := h.view
  cases es with
  | nil =>
    simp only [Frozen.ReadsEntries] at hes
    cases hes
  | cons e es =>
    obtain ⟨k, s⟩ := e
    simp only [Frozen.ReadsEntries] at hes
    obtain ⟨y, zs, hzs, hs, hes⟩ := hes
    cases hzs
    cases es with
    | nil =>
      simp only [Frozen.ReadsEntries] at hes
      cases hes
    | cons e es =>
      obtain ⟨l, q'⟩ := e
      simp only [Frozen.ReadsEntries] at hes
      obtain ⟨y, zs, hzs, hq', hes⟩ := hes
      cases hzs
      cases es with
      | cons e es =>
        obtain ⟨m, u⟩ := e
        simp only [Frozen.ReadsEntries] at hes
        obtain ⟨y, zs, hzs, _⟩ := hes
        cases hzs
      | nil =>
        have hstate : Reads g s x := (Frozen.reads_map (fun _ => rfl) s x).1 hs
        have hform : Reads (wireGraph g x q) q (.form q) :=
          (Frozen.reads_map (fun _ => rfl) q q).2 (Frozen.reads_valueGraph q hq)
        rw [Reads.unique q' hq' hform]
        exact ⟨s, hstate, rfl⟩

/-- A frozen wire form holds its state. -/
theorem thaw_wire {f : Frozen.ImmutableJSON} {s q : Value} (h : thawJson f = wireValue s q) :
    ∃ state questions, f = .mapping [(str "state", state), (str "questions", questions)] ∧
      thawJson state = s := by
  cases f with
  | scalar c => cases c <;> cases h
  | tuple items => cases h
  | mapping es =>
    simp only [thawJson, wireValue, Value.dict.injEq] at h
    cases es with
    | nil => cases h
    | cons e es =>
      obtain ⟨k, state⟩ := e
      cases es with
      | nil => simp [Frozen.thawEntries] at h
      | cons e es =>
        obtain ⟨l, questions⟩ := e
        cases es with
        | cons e es => simp [Frozen.thawEntries] at h
        | nil =>
          simp only [Frozen.thawEntries, List.cons.injEq, Prod.mk.injEq, Key.str.injEq, and_true] at h
          obtain ⟨⟨rfl, hs⟩, rfl, _⟩ := h
          exact ⟨state, questions, rfl, hs⟩

variable [DecidableEq ι] {py : Host} {o : Objects py ι} {x : ι} {questions : Mapping Ident Question}

/-- What the walk takes becomes a snapshot that says what the request holds. -/
theorem snapshot_describes {frozen : Frozen.FrozenJSON}
    (h : freezeJson (.plain LIMITS) (wireGraph o.graph x (described questions)) py.json.nesting .request =
      .ok frozen) :
    ∃ v, snapshot questions frozen = .ok v ∧ Describes o x v := by
  obtain ⟨hreads, hjson, hheight⟩ := Frozen.copies_of_ok h
  have hquestions := sound_questions (f := py.json.floatOf) questions
  obtain ⟨s, hstate, hwire⟩ := reads_request hquestions.1 hreads
  obtain ⟨state, rest, hvalue, hthaw⟩ := thaw_wire hwire
  have hlimit : LIMITS.maxEncodedBytes = some (MAX_REQUEST_BYTES : Int) := rfl
  obtain ⟨b, hcanonical, hcount, hbudget, hdepth⟩ := Frozen.measured_of_ok hlimit h
  have hgenuine : Genuine py.json.floatOf (thawJson frozen.value) := by
    rw [hwire]
    simp only [wireValue, Genuine, Frozen.GenuineEntries]
    refine ⟨?_, Frozen.genuine_of_reads o.genuine s hstate, ?_, hquestions.2, trivial⟩
    · intro t ht
      cases ht
      exact (by decide : ∀ c ∈ str "state", c < 0x110000)
    · intro t ht
      cases ht
      exact (by decide : ∀ c ∈ str "questions", c < 0x110000)
  obtain ⟨text, hdecode, hloads⟩ := Frozen.loads_canonical py.json hjson hgenuine hheight hcanonical
  have hsnapshot : snapshot questions frozen = .ok ⟨state, questions, frozen.value, b.length⟩ := by
    unfold snapshot
    rw [hvalue, hcount]
    rfl
  refine ⟨_, hsnapshot, ?_, ?_, ?_⟩
  · rw [hthaw]
    exact hstate
  · rw [hthaw]
    rw [hwire] at hdepth
    have hlevels := hdepth _ rfl
    simp only [wireValue, levels, Frozen.levelsEntries] at hlevels
    omega
  · refine ⟨b, text, hcanonical, rfl, ?_, hdecode, ?_⟩
    · exact_mod_cast hbudget
    · rw [hloads, hwire, hthaw]
      rfl

/-- What the walk refuses is a `DecisionRequestInvalid`. -/
theorem walk_refused {q : Value} {e : Frozen.Reject}
    (h : freezeJson (.plain LIMITS) (wireGraph o.graph x q) py.json.nesting .request = .error e) :
    ∃ rule, ruleOf e = some rule := by
  have hroom : MAX_STATE_DEPTH + 1 < py.json.nesting := by
    have hroomy := py.roomy
    omega
  cases e with
  | recursion => exact absurd h (Frozen.not_recursion rfl hroom Node.request)
  | domain n => exact absurd rfl ((Frozen.blame_of_error h).known n)
  | _ => exact ⟨_, rfl⟩

end Wire

section Validate

variable {ι : Type} [DecidableEq ι] (py : Host) (o : Objects py ι)

/-- A validation of items that passed their checks is faithful. -/
theorem validate_ok {r : DecisionRequest ι} {items : List (Label × Candidate)}
    (hitems : r.questions = some items) (hcount : 1 ≤ items.length ∧ items.length ≤ MAX_QUESTIONS)
    {frozen : Mapping Ident Question × Mapping Ident Value}
    (h : freezeQuestions py items .empty .empty = .ok frozen) : Faithful py o (.request r) := by
  have hforms := forms_described py items .empty .empty rfl frozen h
  have hwire : Value.dict (frozen.2.entries.map fun e => (Key.str e.1.val, e.2)) =
      described frozen.1 := by
    rw [hforms, List.map_map]
    rfl
  cases hwalk : freezeJson (.plain LIMITS) (wireGraph o.graph r.state (described frozen.1))
      py.json.nesting .request with
  | error e =>
    obtain ⟨rule, hrule⟩ := walk_refused hwalk
    have hrun : validateDecisionRequest py o (.request r) = .error (.invalid rule (.walk e)) := by
      unfold validateDecisionRequest
      simp only [hitems, if_pos hcount, h, bind_of_ok, hwire, hwalk, hrule]
    rw [Faithful, hrun]
    refine ⟨(contained_error _).2 ⟨rule, .walk e, rfl⟩, ?_⟩
    intro v hv
    cases hv
  | ok f =>
    obtain ⟨v, hv, hdescribes⟩ := snapshot_describes hwalk
    have hrun : validateDecisionRequest py o (.request r) = .ok v := by
      unfold validateDecisionRequest
      simp only [hitems, if_pos hcount, h, bind_of_ok, hwire, hwalk, hv]
    rw [Faithful, hrun]
    refine ⟨contained_ok v, ?_⟩
    intro u hu
    cases hu
    exact ⟨r, rfl, hdescribes⟩

theorem faithful_of_refused {argument : Argument ι} {rule : Rule} {message : Str}
    (h : validateDecisionRequest py o argument = refuse rule message) : Faithful py o argument := by
  rw [Faithful, h]
  refine ⟨(contained_error _).2 ⟨rule, .text message, rfl⟩, ?_⟩
  intro v hv
  cases hv

/-- A validation raises nothing but `DecisionRequestInvalid` and describes what it takes exactly when
`repr` renders the first id that is against the pattern, where no other rule is broken before it. -/
theorem validateDecisionRequest_faithful_iff {ι : Type} [DecidableEq ι] (py : Host) (o : Objects py ι)
    (argument : Argument ι) : Faithful py o argument ↔ argument.Shown py := by
  cases argument with
  | other typeName => exact iff_of_true (faithful_of_refused py o rfl) trivial
  | request r =>
    cases hitems : r.questions with
    | none =>
      apply iff_of_true
      · apply faithful_of_refused
        unfold validateDecisionRequest
        simp only [hitems]
        rfl
      · simp [Argument.Shown, hitems]
    | some items =>
      by_cases hcount : 1 ≤ items.length ∧ items.length ≤ MAX_QUESTIONS
      · have hmeets := meets_questions py items .empty .empty
        have hshown : (Argument.request r).Shown py ↔
            UpTo ItemOk (fun e => e.1.Shown py ∧ (e.1.Ok → e.2.Shown py)) items := by
          simp [Argument.Shown, hitems, hcount]
        rw [hshown, ← hmeets.contained]
        cases hrun : freezeQuestions py items .empty .empty with
        | ok frozen =>
          exact iff_of_true (validate_ok py o hitems hcount hrun) (contained_ok frozen)
        | error e =>
          have hfail : validateDecisionRequest py o (.request r) = .error e := by
            unfold validateDecisionRequest
            simp only [hitems, if_pos hcount, hrun]
            rfl
          rw [Faithful, hfail, contained_error, contained_error]
          apply and_iff_left
          intro v hv
          cases hv
      · apply iff_of_true
        · apply faithful_of_refused
          unfold validateDecisionRequest
          simp only [hitems, if_neg hcount]
          rfl
        · simp only [Argument.Shown, hitems]
          intro items' hitems' hcount'
          cases hitems'
          exact absurd hcount' hcount

end Validate

/-! An integer of 4301 digits as a question id. -/

def sampleHost : Host :=
  ⟨.floatless, ⟨fun s => 39 :: (s ++ [39]), fun _ => str "<object>"⟩, by decide⟩

/-- The object `None`. -/
def sampleObjects : Objects sampleHost Unit where
  graph := ⟨fun _ => .scalar .none, fun _ _ h => by cases h⟩
  genuine := by
    constructor
    · intro x s h
      cases h
      trivial
    · intro x es s h
      cases h

/-- `DecisionRequest(state=None, questions={i: NoulQuestion("x")})`. -/
def numbered (i : Int) : Argument Unit :=
  .request ⟨(), some [(.int i, .noul (.str ⟨str "x", by decide⟩) .none .none)]⟩

theorem numbered_raises {i : Int} (h : ¬ Json.Convertible i) :
    validateDecisionRequest sampleHost sampleObjects (numbered i) = .error (.repr .digits) := by
  have hint : Printer.int i = .error .digits := by
    unfold Printer.int Json.dumpInt
    rw [if_pos (not_le.1 h)]
  have hcheck : ∀ what, checkId sampleHost (.int i) what = .error (.repr .digits) := by
    intro what
    unfold checkId
    simp only [Label.ident, Label.repr, hint]
  unfold validateDecisionRequest numbered
  simp only [List.length_cons, List.length_nil, freezeQuestions, hcheck]
  rfl

/-- `repr` of the id raises `ValueError`. -/
theorem huge_id_escapes :
    validateDecisionRequest sampleHost sampleObjects (numbered (10 ^ 4300)) =
        .error (.repr .digits) ∧
      ¬ Faithful sampleHost sampleObjects (numbered (10 ^ 4300)) := by
  have hraises := numbered_raises (Json.not_convertible (k := 4300) (by decide))
  refine ⟨hraises, ?_⟩
  rintro ⟨hcontained, _⟩
  obtain ⟨rule, message, h⟩ := hcontained _ hraises
  cases h

example : (validateDecisionRequest sampleHost sampleObjects (.request ⟨(), some [(.str (str "q"),
    .noul (.str ⟨str "x", by decide⟩) .none .none)]⟩)).toOption.map
      ValidatedDecisionRequest.encodedBytes = some 67 := by
  decide +kernel

end KestrelSdk.Llm.Decisions
