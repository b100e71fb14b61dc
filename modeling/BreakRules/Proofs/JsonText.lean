import BreakRules.Proofs.JsonReader

/-!
# Reading the JSON text of a machine

Both layouts of a value have the same lexemes, because they differ in blanks
only: `Json.lexemes_write`. From these lexemes the reader builds the value
again, whatever is open around it: `Json.steps_toLexemes`. So the JSON text of a
machine is read to the machine, and no two machines share a text.
-/

namespace BreakRules

namespace Json

/-! ### Strings -/

/-- The digits of a control character are those of its number. -/
theorem hexDigits_four : ∀ n < 0x20,
    Text.hexDigits 4 n = ['0', '0', (n / 16).digitChar, (n % 16).digitChar] ∧
      codeUnit '0' '0' (n / 16).digitChar (n % 16).digitChar = some n := by
  decide

theorem unquote_plain {c : Char} (hquote : c ≠ '"') (hback : c ≠ '\\') (hctrl : ¬ c.toNat < 0x20)
    (rest : List Char) : unquote (c :: rest) = (unquote rest).map (prepend c) := by
  rw [unquote.eq_def]
  split
  · next h => cases h
  · next h => exact absurd (List.cons.inj h).1 hquote
  · next h => exact absurd (List.cons.inj h).1 hback
  · next h => exact absurd (List.cons.inj h).1 hback
  · next h =>
      obtain ⟨rfl, rfl⟩ := List.cons.inj h
      rw [if_neg hctrl]

theorem unquote_control {n : Nat} (h : n < 0x20) (rest : List Char) :
    unquote ('\\' :: 'u' :: (Text.hexDigits 4 n ++ rest)) =
      (unquote rest).map (prepend (Char.ofNat n)) := by
  obtain ⟨hdigits, hunit⟩ := hexDigits_four n h
  have hrange : n < 0xD800 ∨ 0xE000 ≤ n := by omega
  rw [hdigits]
  simp only [List.cons_append, List.nil_append]
  rw [unquote]
  simp only [hunit, if_pos hrange]

/-- A character is read as it is written. -/
theorem unquote_escaped (c : Char) (rest : List Char) :
    unquote (escaped c ++ rest) = (unquote rest).map (prepend c) := by
  unfold escaped
  split
  · next h =>
      rcases h with rfl | rfl <;> rfl
  split
  · next h => subst h; rfl
  split
  · next h => subst h; rfl
  split
  · next h => subst h; rfl
  split
  · next h => subst h; rfl
  split
  · next h => subst h; rfl
  split
  · next h =>
      have hread := unquote_control h rest
      rwa [Char.ofNat_toNat] at hread
  · next hne _ _ _ _ _ hctrl =>
      rw [not_or] at hne
      exact unquote_plain hne.1 hne.2 hctrl rest

theorem unquote_flatMap_escaped (s rest : List Char) :
    unquote (s.flatMap escaped ++ '"' :: rest) = some (s, rest) := by
  induction s with
  | nil => rfl
  | cons c s ih =>
      rw [List.flatMap_cons, List.append_assoc, unquote_escaped, ih]
      rfl

/-! ### Lexemes of a text -/

/-- A text that does not go on with a digit, so that a number in front of it
ends there. -/
def Stops (text : List Char) : Prop :=
  ∀ c ∈ text.head?, c.isDigit = false

theorem stops_cons {c : Char} (h : c.isDigit = false) (rest : List Char) : Stops (c :: rest) := by
  simpa [Stops] using h

theorem not_mem_of_isDigit {chars : List Char} (hchars : ∀ d ∈ chars, d.isDigit = false) {c : Char}
    (h : c.isDigit = true) : c ∉ chars := by
  intro hc
  rw [hchars c hc] at h
  cases h

theorem isSpace_of_isDigit {c : Char} (h : c.isDigit = true) : ¬ isSpace c = true := by
  simpa only [isSpace, decide_eq_true_eq] using not_mem_of_isDigit (by simp [Char.isDigit]) h

theorem isMark_of_isDigit {c : Char} (h : c.isDigit = true) : ¬ isMark c = true := by
  simpa only [isMark, decide_eq_true_eq] using not_mem_of_isDigit (by simp [Char.isDigit]) h

@[simp] theorem lexemes_nil : lexemes [] = some [] := by
  rw [lexemes]

theorem lexemes_space {c : Char} (h : isSpace c = true) (rest : List Char) :
    lexemes (c :: rest) = lexemes rest := by
  rw [lexemes, if_pos h]

theorem lexemes_spaces {spaces : List Char} (h : ∀ c ∈ spaces, isSpace c = true)
    (rest : List Char) : lexemes (spaces ++ rest) = lexemes rest := by
  induction spaces with
  | nil => rfl
  | cons c spaces ih =>
      obtain ⟨hc, hspaces⟩ := List.forall_mem_cons.mp h
      rw [List.cons_append, lexemes_space hc, ih hspaces]

theorem lexemes_mark {c : Char} (h : isMark c = true) {rest : List Char} {ls : List Lexeme}
    (hrest : lexemes rest = some ls) : lexemes (c :: rest) = some (.mark c :: ls) := by
  have hspace : ¬ isSpace c = true := by
    simp only [isMark, decide_eq_true_eq, List.mem_cons, List.not_mem_nil, or_false] at h
    rcases h with rfl | rfl | rfl | rfl | rfl | rfl <;> decide
  rw [lexemes, if_neg hspace, if_pos h, hrest]
  rfl

theorem lexemes_writeString (s : String) {rest : List Char} {ls : List Lexeme}
    (hrest : lexemes rest = some ls) :
    lexemes (writeString s ++ rest) = some (.string s :: ls) := by
  have hread : unquote (s.toList.flatMap escaped ++ ['"'] ++ rest) = some (s.toList, rest) := by
    rw [List.append_assoc, List.singleton_append, unquote_flatMap_escaped]
  rw [writeString, List.cons_append, lexemes, if_neg (by decide), if_neg (by decide), if_pos rfl]
  split
  · next hnone => rw [hread] at hnone; cases hnone
  · next s' rest' hsome =>
      rw [hread] at hsome
      cases hsome
      rw [hrest, String.ofList_toList]
      rfl

/-! ### Numbers -/

/-- Zero is the only number that begins with a zero. -/
theorem eq_zero_of_head?_toDigits {n : Nat} (h : (Nat.toDigits 10 n).head? = some '0') : n = 0 := by
  induction n using Nat.strongRecOn with
  | ind n ih =>
      by_cases hn : n < 10
      · rw [Nat.toDigits_of_lt_base hn, List.head?_cons, Option.some.injEq] at h
        have hdigit : ∀ m < 10, Nat.digitChar m = '0' → m = 0 := by decide
        exact hdigit n hn h
      · have hbase : 10 ≤ n := by omega
        obtain ⟨c, digits, hdigits⟩ :=
          List.exists_cons_of_ne_nil (Nat.toDigits_ne_nil (n := n / 10) (b := 10))
        rw [Nat.toDigits_of_base_le (by decide) hbase, hdigits] at h
        have hzero := ih (n / 10) (by omega) (by rw [hdigits]; exact h)
        omega

theorem readDigits_toDigits (n : Nat) : readDigits (Nat.toDigits 10 n) = some n := by
  rw [readDigits, if_neg, Nat.ofDigitChars_ten_toDigits]
  rintro ⟨hhead, hlength⟩
  rw [eq_zero_of_head?_toDigits hhead] at hlength
  exact hlength rfl

theorem lexemes_digits {digits : List Char} (hne : digits ≠ [])
    (hdigits : ∀ c ∈ digits, c.isDigit = true) {n : Nat} (hread : readDigits digits = some n)
    {rest : List Char} (hstops : Stops rest) {ls : List Lexeme} (hrest : lexemes rest = some ls) :
    lexemes (digits ++ rest) = some (.number n :: ls) := by
  obtain ⟨c, digits, rfl⟩ := List.exists_cons_of_ne_nil hne
  obtain ⟨hc, hdigits⟩ := List.forall_mem_cons.mp hdigits
  have hquote : c ≠ '"' := by
    rintro rfl
    exact absurd hc (by decide)
  have htake : (digits ++ rest).takeWhile Char.isDigit = digits := by
    rw [List.takeWhile_append_of_pos hdigits]
    cases rest with
    | nil => simp
    | cons d rest => simp [hstops d rfl]
  have hdrop : (digits ++ rest).dropWhile Char.isDigit = rest := by
    rw [List.dropWhile_append_of_pos hdigits]
    cases rest with
    | nil => rfl
    | cons d rest => simp [hstops d rfl]
  rw [List.cons_append, lexemes, if_neg (isSpace_of_isDigit hc), if_neg (isMark_of_isDigit hc),
    if_neg hquote, if_pos hc, htake, hread]
  simp only [hdrop, hrest, Option.map_some]

theorem lexemes_number (n : Nat) {rest : List Char} (hstops : Stops rest) {ls : List Lexeme}
    (hrest : lexemes rest = some ls) :
    lexemes ((toString n).toList ++ rest) = some (.number n :: ls) := by
  rw [Nat.toString_eq_ofList_toDigits, String.toList_ofList]
  exact lexemes_digits Nat.toDigits_ne_nil
    (fun c hc => Nat.isDigit_of_mem_toDigits (by decide) (by decide) hc)
    (readDigits_toDigits n) hstops hrest

/-! ### Lexemes of a value -/

mutual

/-- The lexemes of a value in any layout. -/
def toLexemes : Json → List Lexeme
  | .number n => [.number n]
  | .string s => [.string s]
  | .array [] => [.mark '[', .mark ']']
  | .array (item :: rest) =>
      .mark '[' :: (toLexemes item ++ (itemLexemes rest ++ [.mark ']']))
  | .object [] => [.mark '\x7b', .mark '\x7d']
  | .object ((name, value) :: rest) =>
      .mark '\x7b' :: .string name :: .mark ':' ::
        (toLexemes value ++ (fieldLexemes rest ++ [.mark '\x7d']))

def itemLexemes : List Json → List Lexeme
  | [] => []
  | item :: rest => .mark ',' :: (toLexemes item ++ itemLexemes rest)

def fieldLexemes : List (String × Json) → List Lexeme
  | [] => []
  | (name, value) :: rest =>
      .mark ',' :: .string name :: .mark ':' :: (toLexemes value ++ fieldLexemes rest)

end

theorem lexemes_lineBreak (layout : Layout) (depth : Nat) (rest : List Char) :
    lexemes (layout.lineBreak depth ++ rest) = lexemes rest := by
  apply lexemes_spaces
  cases layout with
  | compact => simp [Layout.lineBreak]
  | indented => simp [Layout.lineBreak, isSpace]

theorem stops_lineBreak (layout : Layout) (depth : Nat) {rest : List Char} (h : Stops rest) :
    Stops (layout.lineBreak depth ++ rest) := by
  cases layout with
  | compact => exact h
  | indented => exact stops_cons (by decide) _

theorem lexemes_colon (layout : Layout) {rest : List Char} {ls : List Lexeme}
    (hrest : lexemes rest = some ls) :
    lexemes (layout.colon ++ rest) = some (.mark ':' :: ls) := by
  cases layout with
  | compact => exact lexemes_mark (by decide) hrest
  | indented =>
      have hblank : lexemes (' ' :: rest) = some ls := by rwa [lexemes_space rfl]
      exact lexemes_mark (by decide) hblank

theorem stops_writeItems (layout : Layout) (depth : Nat) (items : List Json) {rest : List Char}
    (h : Stops rest) : Stops (writeItems layout depth items ++ rest) := by
  cases items with
  | nil => simpa [writeItems] using h
  | cons item items =>
      simp only [writeItems, List.cons_append]
      exact stops_cons (by decide) _

theorem stops_writeFields (layout : Layout) (depth : Nat) (fields : List (String × Json))
    {rest : List Char} (h : Stops rest) : Stops (writeFields layout depth fields ++ rest) := by
  cases fields with
  | nil => simpa [writeFields] using h
  | cons field fields =>
      simp only [writeFields, List.cons_append]
      exact stops_cons (by decide) _

mutual

/-- A value in any layout has its lexemes, if no digit follows. -/
theorem lexemes_write (layout : Layout) (depth : Nat) (value : Json) {rest : List Char}
    (hstops : Stops rest) {ls : List Lexeme} (hrest : lexemes rest = some ls) :
    lexemes (write layout depth value ++ rest) = some (toLexemes value ++ ls) := by
  match value with
  | .number n => simpa [write, toLexemes] using lexemes_number n hstops hrest
  | .string s => simpa [write, toLexemes] using lexemes_writeString s hrest
  | .array [] =>
      simpa [write, toLexemes] using lexemes_mark (c := '[') rfl (lexemes_mark (c := ']') rfl hrest)
  | .object [] =>
      simpa [write, toLexemes] using
        lexemes_mark (c := '\x7b') rfl (lexemes_mark (c := '\x7d') rfl hrest)
  | .array (item :: items) =>
      have hclose := lexemes_mark (c := ']') rfl hrest
      rw [← lexemes_lineBreak layout depth] at hclose
      have hstop := stops_lineBreak layout depth (stops_cons (c := ']') rfl rest)
      have hitems := lexemes_writeItems layout (depth + 1) items hstop hclose
      have hitem := lexemes_write layout (depth + 1) item
        (stops_writeItems layout (depth + 1) items hstop) hitems
      rw [← lexemes_lineBreak layout (depth + 1)] at hitem
      simpa [write, toLexemes] using lexemes_mark (c := '[') rfl hitem
  | .object ((name, value) :: fields) =>
      have hclose := lexemes_mark (c := '\x7d') rfl hrest
      rw [← lexemes_lineBreak layout depth] at hclose
      have hstop := stops_lineBreak layout depth (stops_cons (c := '\x7d') rfl rest)
      have hfields := lexemes_writeFields layout (depth + 1) fields hstop hclose
      have hvalue := lexemes_write layout (depth + 1) value
        (stops_writeFields layout (depth + 1) fields hstop) hfields
      have hname := lexemes_writeString name (lexemes_colon layout hvalue)
      rw [← lexemes_lineBreak layout (depth + 1)] at hname
      simpa [write, toLexemes] using lexemes_mark (c := '\x7b') rfl hname

theorem lexemes_writeItems (layout : Layout) (depth : Nat) (items : List Json)
    {rest : List Char} (hstops : Stops rest) {ls : List Lexeme} (hrest : lexemes rest = some ls) :
    lexemes (writeItems layout depth items ++ rest) = some (itemLexemes items ++ ls) := by
  match items with
  | [] => simpa [writeItems, itemLexemes] using hrest
  | item :: items =>
      have hitems := lexemes_writeItems layout depth items hstops hrest
      have hitem := lexemes_write layout depth item (stops_writeItems layout depth items hstops)
        hitems
      rw [← lexemes_lineBreak layout depth] at hitem
      simpa [writeItems, itemLexemes] using lexemes_mark (c := ',') rfl hitem

theorem lexemes_writeFields (layout : Layout) (depth : Nat) (fields : List (String × Json))
    {rest : List Char} (hstops : Stops rest) {ls : List Lexeme} (hrest : lexemes rest = some ls) :
    lexemes (writeFields layout depth fields ++ rest) = some (fieldLexemes fields ++ ls) := by
  match fields with
  | [] => simpa [writeFields, fieldLexemes] using hrest
  | (name, value) :: fields =>
      have hfields := lexemes_writeFields layout depth fields hstops hrest
      have hvalue := lexemes_write layout depth value
        (stops_writeFields layout depth fields hstops) hfields
      have hname := lexemes_writeString name (lexemes_colon layout hvalue)
      rw [← lexemes_lineBreak layout depth] at hname
      simpa [writeFields, fieldLexemes] using lexemes_mark (c := ',') rfl hname

end

/-! ### Reading the lexemes of a value -/

@[simp] theorem steps_cons (r : Reader) (l : Lexeme) (ls : List Lexeme) :
    steps r (l :: ls) = (step r l).bind (steps · ls) := by
  rw [steps, List.foldlM_cons]
  rfl

/-- An array that has just begun goes on like one that is under way, unless it
ends at once. -/
theorem steps_firstItem (value : Json) (stack : List Frame) (ls : List Lexeme) :
    steps ⟨.firstItem, stack⟩ (toLexemes value ++ ls) =
      steps ⟨.value, .array [] :: stack⟩ (toLexemes value ++ ls) := by
  match value with
  | .number n => simp [toLexemes, step]
  | .string s => simp [toLexemes, step]
  | .array [] => simp [toLexemes, step]
  | .array (item :: items) => simp [toLexemes, step]
  | .object [] => simp [toLexemes, step]
  | .object ((name, value) :: fields) => simp [toLexemes, step]

mutual

/-- The reader builds a value from its lexemes, whatever is open around it. -/
theorem steps_toLexemes (value : Json) (stack : List Frame) (ls : List Lexeme) :
    steps ⟨.value, stack⟩ (toLexemes value ++ ls) = steps ⟨.follow value, stack⟩ ls := by
  match value with
  | .number n => simp [toLexemes, step, beginValue]
  | .string s => simp [toLexemes, step, beginValue]
  | .array [] => simp [toLexemes, step, beginValue]
  | .object [] => simp [toLexemes, step, beginValue]
  | .array (item :: items) =>
      simp only [toLexemes, List.cons_append, List.append_assoc, steps_cons, step, beginValue,
        Option.bind_some]
      rw [steps_firstItem, steps_toLexemes item, List.nil_append,
        steps_itemLexemes items item [] stack ls, List.nil_append]
  | .object ((name, value) :: fields) =>
      simp only [toLexemes, List.cons_append, List.append_assoc, steps_cons, step, beginValue,
        Option.bind_some]
      rw [steps_toLexemes value, List.nil_append,
        steps_fieldLexemes fields name value [] stack ls, List.nil_append]

theorem steps_itemLexemes (items : List Json) (value : Json) (before : List Json)
    (stack : List Frame) (ls : List Lexeme) :
    steps ⟨.follow value, .array before :: stack⟩ (itemLexemes items ++ .mark ']' :: ls) =
      steps ⟨.follow (.array (before ++ value :: items)), stack⟩ ls := by
  match items with
  | [] => simp [itemLexemes, step]
  | item :: items =>
      simp only [itemLexemes, List.cons_append, List.append_assoc, steps_cons, step,
        Option.bind_some]
      rw [steps_toLexemes item, steps_itemLexemes items item (before ++ [value]) stack ls,
        List.append_assoc, List.singleton_append]

theorem steps_fieldLexemes (fields : List (String × Json)) (name : String) (value : Json)
    (before : List (String × Json)) (stack : List Frame) (ls : List Lexeme) :
    steps ⟨.follow value, .object before name :: stack⟩
        (fieldLexemes fields ++ .mark '\x7d' :: ls) =
      steps ⟨.follow (.object (before ++ (name, value) :: fields)), stack⟩ ls := by
  match fields with
  | [] => simp [fieldLexemes, step]
  | (name', value') :: fields =>
      simp only [fieldLexemes, List.cons_append, List.append_assoc, steps_cons, step,
        Option.bind_some]
      rw [steps_toLexemes value',
        steps_fieldLexemes fields name' value' (before ++ [(name, value)]) stack ls,
        List.append_assoc, List.singleton_append]

end

/-- The text of a value is read to the value. -/
theorem read?_text (layout : Layout) (value : Json) : read? (value.text layout) = some value := by
  have hend : lexemes ['\n'] = some [] := by rw [lexemes_space rfl, lexemes_nil]
  have hlex := lexemes_write layout 0 value (stops_cons (c := '\n') rfl []) hend
  have hsteps := steps_toLexemes value [] []
  rw [read?, text, String.toList_ofList, hlex]
  simp only [Option.bind_eq_bind, Option.bind_some, hsteps]
  rfl

end Json

/-! ### Machines -/

namespace Json

def toNat? : Json → Option Nat
  | .number n => some n
  | _ => none

def toString? : Json → Option String
  | .string s => some s
  | _ => none

def toList? : Json → Option (List Json)
  | .array items => some items
  | _ => none

/-- The value of a field, wherever it stands in an object. -/
def field? (name : String) : Json → Option Json
  | .object fields => fields.lookup name
  | _ => none

end Json

def Verdict.ofWord? (w : String) : Option Verdict :=
  if w = "break" then some split else if w = "no-break" then some join else none

def Cell.ofJson? (j : Json) : Option (Cell Nat) := do
  let verdict ← Verdict.ofWord? (← (← j.field? "action").toString?)
  let next ← (← j.field? "next").toNat?
  return ⟨verdict, next⟩

def State.ofJson? (j : Json) : Option State := do
  let index ← (← j.field? "index").toNat?
  let labels ← (← (← j.field? "labels").toList?).mapM (·.toString?)
  let row ← (← (← j.field? "row").toList?).mapM Cell.ofJson?
  return ⟨index, labels, row⟩

/-- The machine that a JSON value describes. -/
def Machine.ofJson? (j : Json) : Option Machine := do
  let tokens ← (← (← j.field? "tokens").toList?).mapM (·.toString?)
  let start ← (← j.field? "start").toNat?
  let states ← (← (← j.field? "states").toList?).mapM State.ofJson?
  return ⟨tokens, start, states⟩

theorem mapM_map_of_inverse {α β : Type} {f : α → β} {g : β → Option α}
    (h : ∀ a, g (f a) = some a) (l : List α) : (l.map f).mapM g = some l := by
  induction l with
  | nil => rfl
  | cons a l ih => simp [h, ih]

theorem Cell.ofJson?_toJson (c : Cell Nat) : Cell.ofJson? c.toJson = some c := by
  cases c with
  | mk verdict next => cases verdict <;> rfl

theorem State.ofJson?_toJson (s : State) : State.ofJson? s.toJson = some s := by
  have hlabels :=
    mapM_map_of_inverse (f := Json.string) (g := Json.toString?) (fun _ => rfl) s.labels
  have hrow := mapM_map_of_inverse Cell.ofJson?_toJson s.row
  simp [ofJson?, toJson, Json.field?, Json.toNat?, Json.toList?, List.lookup_cons, hlabels,
    hrow]

theorem Machine.ofJson?_toJson (M : Machine) : Machine.ofJson? M.toJson = some M := by
  have htokens :=
    mapM_map_of_inverse (f := Json.string) (g := Json.toString?) (fun _ => rfl) M.tokens
  have hstates := mapM_map_of_inverse State.ofJson?_toJson M.states
  simp [ofJson?, toJson, Json.field?, Json.toNat?, Json.toList?, List.lookup_cons, htokens,
    hstates]

/-- The JSON text of a machine, in either layout, is read to one and the same
value, from which the machine is got back. So no two machines share a text. -/
theorem machine_json_decodable (M : Machine) :
    (∀ layout, Json.read? (M.json layout) = some M.toJson) ∧
    Machine.ofJson? M.toJson = some M ∧
    (∀ layout layout' M', M.json layout = M'.json layout' → M = M') := by
  have hread : ∀ (N : Machine) layout, Json.read? (N.json layout) = some N.toJson :=
    fun N layout => Json.read?_text layout N.toJson
  refine ⟨hread M, M.ofJson?_toJson, ?_⟩
  intro layout layout' M' heq
  have hvalue : some M.toJson = some M'.toJson := by
    rw [← hread M layout, heq, hread M' layout']
  have hmachine : some M = some M' := by
    rw [← M.ofJson?_toJson, Option.some.inj hvalue, M'.ofJson?_toJson]
  exact Option.some.inj hmachine

end BreakRules
