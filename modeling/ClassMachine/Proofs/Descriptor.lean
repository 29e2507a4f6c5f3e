/-
Which texts are descriptors, and what is wrong with the others. A text is the text of a descriptor, or it has the shape
of one but a symbol in it stands for no type, or it is malformed; there is no fourth case (`parse_cases`), and in each
of the three the reader says which: it yields the descriptor, names the first such symbol and its place in bytes, or
refuses the text as a whole.
-/
import ClassMachine.Descriptor
import Mathlib.Data.List.TakeWhile

namespace ClassMachine.Descriptor

/-! ## Shapes -/

/-- The text is arguments in parentheses, with no closing one among them, and then a result of at least one symbol and
without line break. -/
structure Shaped (text : String) (arguments result : List Char) : Prop where
  toList_eq : text.toList = '(' :: arguments ++ ')' :: result
  unclosed : ')' ∉ arguments
  nonempty : result ≠ []
  oneLine : '\n' ∉ result

/-- The text has the shape of a descriptor, and of its symbols that stand for no type this is the first: of those among
the arguments, or else the one in the place of the result. It comes after the given symbols. -/
inductive FirstStranger (text : String) : List Char → Char → Prop
  | argument {before after result : List Char} {symbol : Char}
      (hshaped : Shaped text (before ++ symbol :: after) result)
      (hbefore : ∀ c ∈ before, c = 'I') (hsymbol : symbol ≠ 'I') : FirstStranger text ('(' :: before) symbol
  | result {arguments after : List Char} {symbol : Char} (hshaped : Shaped text arguments (symbol :: after))
      (harguments : ∀ c ∈ arguments, c = 'I') (hsymbol : symbol ≠ 'I' ∧ symbol ≠ 'V') :
      FirstStranger text ('(' :: arguments ++ [')']) symbol

/-- A list parts at its first element that fails a test. -/
theorem takeWhile_dropWhile_iff {p : Char → Bool} {chars before after : List Char} {c : Char} :
    chars.takeWhile p = before ∧ chars.dropWhile p = c :: after ↔
      chars = before ++ c :: after ∧ (∀ x ∈ before, p x = true) ∧ p c = false := by
  constructor
  · rintro ⟨rfl, hdrop⟩
    refine ⟨?_, fun x hx => List.mem_takeWhile_imp hx, ?_⟩
    · rw [← hdrop, List.takeWhile_append_dropWhile]
    · have hhead := List.head?_dropWhile_not p chars
      rwa [hdrop] at hhead
  · rintro ⟨rfl, hbefore, hc⟩
    rw [List.takeWhile_append_of_pos hbefore, List.dropWhile_append_of_pos hbefore]
    simp [hc]

/-- A text is split exactly if it has the shape of a descriptor. -/
theorem split?_eq_some_iff {text : String} {arguments after : List Char} {symbol : Char} :
    split? text.toList = some (arguments, symbol, after) ↔ Shaped text arguments (symbol :: after) := by
  constructor
  · intro h
    unfold split? at h
    split at h
    · rename_i rest htext
      split at h
      · rename_i close symbol' after' hdrop
        split at h
        · cases h
        · rename_i hline
          cases h
          obtain ⟨hrest, hbefore, hclose⟩ := takeWhile_dropWhile_iff.1 ⟨rfl, hdrop⟩
          have hparenthesis : close = ')' := by simpa using hclose
          subst hparenthesis
          refine ⟨?_, ?_, List.cons_ne_nil _ _, by simpa using hline⟩
          · rw [htext, List.cons_append, ← hrest]
          · intro hmem
            simpa using hbefore _ hmem
      · cases h
    · cases h
  · rintro ⟨htext, hunclosed, -, hline⟩
    have hbefore : ∀ c ∈ arguments, (c != ')') = true := by
      intro c hc
      simp only [bne_iff_ne, ne_eq]
      rintro rfl
      exact hunclosed hc
    have hparts : (arguments ++ ')' :: symbol :: after).takeWhile (· != ')') = arguments ∧
        (arguments ++ ')' :: symbol :: after).dropWhile (· != ')') = ')' :: symbol :: after :=
      takeWhile_dropWhile_iff.2 ⟨rfl, hbefore, rfl⟩
    rw [htext]
    unfold split?
    simp only [List.cons_append, hparts]
    rw [if_neg (by simpa using hline)]

theorem dropWhile_int_eq_nil_iff {arguments : List Char} :
    arguments.dropWhile (· == 'I') = [] ↔ ∀ c ∈ arguments, c = 'I' := by
  simp [List.dropWhile_eq_nil_iff]

/-! ## Places in bytes -/

theorem byteLength_eq (chars : List Char) : byteLength chars = (String.ofList chars).utf8ByteSize := by
  induction chars with
  | nil => rfl
  | cons c chars ih =>
    rw [byteLength, ih, String.ofList_cons, String.utf8ByteSize_append, String.utf8ByteSize_singleton]

theorem byteLength_append (chars more : List Char) :
    byteLength (chars ++ more) = byteLength chars + byteLength more := by
  induction chars with
  | nil => simp [byteLength]
  | cons c chars ih =>
    simp only [List.cons_append, byteLength, ih]
    omega

/-! ## The three cases -/

theorem ofSymbol?_eq_some_iff {symbol : Char} {result : ResultType} :
    ResultType.ofSymbol? symbol = some result ↔ symbol = result.symbol := by
  constructor
  · intro h
    unfold ResultType.ofSymbol? at h
    split at h <;> cases h <;> rfl
  · rintro rfl
    cases result <;> rfl

theorem ofSymbol?_eq_none_iff {symbol : Char} : ResultType.ofSymbol? symbol = none ↔ symbol ≠ 'I' ∧ symbol ≠ 'V' := by
  constructor
  · intro h
    refine ⟨?_, ?_⟩
    · rintro rfl
      cases h
    · rintro rfl
      cases h
  · rintro ⟨hint, hvoid⟩
    unfold ResultType.ofSymbol?
    split
    · exact absurd rfl hint
    · exact absurd rfl hvoid
    · rfl

/-- The text of a descriptor is read as that descriptor. -/
theorem parse_text (descriptor : Descriptor) : parse descriptor.text = .ok descriptor := by
  obtain ⟨arity, result⟩ := descriptor
  have hshaped : Shaped (text ⟨arity, result⟩) (List.replicate arity 'I') [result.symbol] := by
    refine ⟨?_, ?_, List.cons_ne_nil _ _, ?_⟩
    · unfold text
      rw [String.toList_ofList]
    · intro hmem
      cases List.eq_of_mem_replicate hmem
    · cases result <;> decide
  have hall : (List.replicate arity 'I').dropWhile (· == 'I') = [] :=
    dropWhile_int_eq_nil_iff.2 fun c hc => List.eq_of_mem_replicate hc
  unfold parse
  simp only [split?_eq_some_iff.2 hshaped, hall, ofSymbol?_eq_some_iff.2 rfl, List.length_replicate, List.isEmpty_nil,
    if_true]

/-- The first symbol that stands for no type is reported with the number of bytes before it. -/
theorem FirstStranger.parse_eq {text : String} {before : List Char} {symbol : Char}
    (h : FirstStranger text before symbol) :
    parse text = .error (.unsupported text symbol (String.ofList before).utf8ByteSize) := by
  rw [← byteLength_eq]
  cases h with
  | @argument before after result symbol hshaped hbefore hsymbol =>
    obtain ⟨first, rest, rfl⟩ := List.exists_cons_of_ne_nil hshaped.nonempty
    have hparts : (before ++ symbol :: after).takeWhile (· == 'I') = before ∧
        (before ++ symbol :: after).dropWhile (· == 'I') = symbol :: after :=
      takeWhile_dropWhile_iff.2 ⟨rfl, fun c hc => by simp [hbefore c hc], by simpa using hsymbol⟩
    unfold parse
    simp only [split?_eq_some_iff.2 hshaped, hparts]
    rfl
  | @result arguments after symbol hshaped harguments hsymbol =>
    have hall := dropWhile_int_eq_nil_iff.2 harguments
    have hposition : byteLength ('(' :: arguments ++ [')']) = 2 + byteLength arguments := by
      rw [byteLength_append]
      show '('.utf8Size + byteLength arguments + (')'.utf8Size + 0) = 2 + byteLength arguments
      rw [show '('.utf8Size = 1 from rfl, show ')'.utf8Size = 1 from rfl]
      omega
    unfold parse
    simp only [split?_eq_some_iff.2 hshaped, hall, ofSymbol?_eq_none_iff.2 hsymbol, hposition]

/-- A text is that of a descriptor, has a symbol that stands for no type, or is malformed. -/
theorem parse_cases (text : String) :
    (∃ descriptor : Descriptor, text = descriptor.text) ∨ (∃ before symbol, FirstStranger text before symbol) ∨
      parse text = .error (.malformed text) := by
  unfold parse
  rcases hsplit : split? text.toList with _ | ⟨arguments, symbol, after⟩
  · exact .inr (.inr rfl)
  have hshaped := split?_eq_some_iff.1 hsplit
  rcases hdrop : arguments.dropWhile (· == 'I') with _ | ⟨stranger, rest⟩
  · have hall := dropWhile_int_eq_nil_iff.1 hdrop
    rcases hresult : ResultType.ofSymbol? symbol with _ | result
    · exact .inr (.inl ⟨_, symbol, .result hshaped hall (ofSymbol?_eq_none_iff.1 hresult)⟩)
    · rcases after with _ | ⟨extra, after⟩
      · refine .inl ⟨⟨arguments.length, result⟩, ?_⟩
        rw [ofSymbol?_eq_some_iff] at hresult
        unfold Descriptor.text
        rw [← List.eq_replicate_of_mem hall, ← hresult, ← hshaped.toList_eq, String.ofList_toList]
      · -- symbols after the result are no strangers: the text as a whole is refused
        exact .inr (.inr (by simp [hdrop, hresult]))
  · obtain ⟨harguments, hbefore, hstranger⟩ := takeWhile_dropWhile_iff.1 ⟨rfl, hdrop⟩
    rw [harguments] at hshaped
    have hints : ∀ c ∈ arguments.takeWhile (· == 'I'), c = 'I' := fun c hc => by simpa using hbefore c hc
    exact .inr (.inl ⟨_, stranger, .argument hshaped hints (by simpa using hstranger)⟩)

theorem parse_eq_ok_iff {text : String} {descriptor : Descriptor} :
    parse text = .ok descriptor ↔ text = descriptor.text := by
  constructor
  · intro h
    obtain ⟨found, rfl⟩ | ⟨before, symbol, hstranger⟩ | hmalformed := parse_cases text
    · rw [parse_text] at h
      cases h
      rfl
    · rw [hstranger.parse_eq] at h
      cases h
    · rw [hmalformed] at h
      cases h
  · rintro rfl
    exact parse_text descriptor

theorem parse_eq_unsupported_iff {text described : String} {symbol : Char} {position : Nat} :
    parse text = .error (.unsupported described symbol position) ↔
      described = text ∧ ∃ before, FirstStranger text before symbol ∧
        position = (String.ofList before).utf8ByteSize := by
  constructor
  · intro h
    obtain ⟨found, rfl⟩ | ⟨before, stranger, hstranger⟩ | hmalformed := parse_cases text
    · rw [parse_text] at h
      cases h
    · rw [hstranger.parse_eq] at h
      cases h
      exact ⟨rfl, before, hstranger, rfl⟩
    · rw [hmalformed] at h
      cases h
  · rintro ⟨rfl, before, hstranger, rfl⟩
    exact hstranger.parse_eq

theorem parse_eq_malformed_iff {text described : String} :
    parse text = .error (.malformed described) ↔
      described = text ∧ (∀ descriptor : Descriptor, text ≠ descriptor.text) ∧
        ∀ before symbol, ¬ FirstStranger text before symbol := by
  constructor
  · intro h
    obtain ⟨found, rfl⟩ | ⟨before, stranger, hstranger⟩ | hmalformed := parse_cases text
    · rw [parse_text] at h
      cases h
    · rw [hstranger.parse_eq] at h
      cases h
    · rw [hmalformed] at h
      cases h
      refine ⟨rfl, fun descriptor hdescriptor => ?_, fun before symbol hstranger => ?_⟩
      · rw [parse_eq_ok_iff.2 hdescriptor] at hmalformed
        cases hmalformed
      · rw [hstranger.parse_eq] at hmalformed
        cases hmalformed
  · rintro ⟨rfl, hdescriptor, hstranger⟩
    obtain ⟨found, hfound⟩ | ⟨before, stranger, hfound⟩ | hmalformed := parse_cases described
    · exact absurd hfound (hdescriptor found)
    · exact absurd hfound (hstranger before stranger)
    · exact hmalformed

theorem eq_text_iff {text : String} {descriptor : Descriptor} :
    text = descriptor.text ↔
      text.toList = '(' :: List.replicate descriptor.arity 'I' ++ [')', descriptor.result.symbol] := by
  rw [← String.toList_inj]
  unfold Descriptor.text
  rw [String.toList_ofList]

/-- Reading tells three kinds of texts apart. A descriptor is read from exactly the texts `(`, any number of `I`, `)`
and one of `I` and `V`, and written as the text it is read from. A symbol is reported exactly if it is the first in a
text of the right shape that stands for no type, with the number of bytes before it. All other texts are malformed. -/
theorem parse_trichotomy (text : String) :
    (∀ descriptor, parse text = .ok descriptor ↔ descriptor.text = text ∧ ∃ arity,
      text.toList = '(' :: List.replicate arity 'I' ++ [')', 'I'] ∧ descriptor = { arity, result := .int } ∨
      text.toList = '(' :: List.replicate arity 'I' ++ [')', 'V'] ∧ descriptor = { arity, result := .void }) ∧
    (∀ described symbol position, parse text = .error (.unsupported described symbol position) ↔
      described = text ∧ ∃ before, FirstStranger text before symbol ∧
        position = (String.ofList before).utf8ByteSize) ∧
    ∀ described, parse text = .error (.malformed described) ↔
      described = text ∧ (∀ descriptor : Descriptor, text ≠ descriptor.text) ∧
        ∀ before symbol, ¬ FirstStranger text before symbol := by
  refine ⟨fun descriptor => ?_, fun described symbol position => parse_eq_unsupported_iff,
    fun described => parse_eq_malformed_iff⟩
  rw [parse_eq_ok_iff]
  constructor
  · intro h
    refine ⟨h.symm, descriptor.arity, ?_⟩
    rw [eq_text_iff] at h
    obtain ⟨arity, _ | _⟩ := descriptor
    · exact .inl ⟨h, rfl⟩
    · exact .inr ⟨h, rfl⟩
  · rintro ⟨htext, -⟩
    exact htext.symm

/-- A line break may stand among the arguments, where it is a symbol like others, and nowhere else. -/
example : parse "(\n)V" = .error (.unsupported "(\n)V" '\n' 1) ∧ parse "()V\n" = .error (.malformed "()V\n") := by
  decide

end ClassMachine.Descriptor
