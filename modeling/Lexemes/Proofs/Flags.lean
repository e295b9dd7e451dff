import Lexemes.Proofs.Listing

namespace Lexemes.CommandLine

def IsFlag (a : String) : Prop := a = jsonFlag ∨ a = lenientFlag

instance : DecidablePred IsFlag := fun _ => inferInstanceAs (Decidable (_ ∨ _))

theorem isFlag_json : IsFlag jsonFlag := Or.inl rfl

theorem isFlag_lenient : IsFlag lenientFlag := Or.inr rfl

/-- Arguments among which the same flags occur, and of which the first one that is no flag is the same, if
there is one. -/
structure Agree (arguments others : List String) : Prop where
  json : jsonFlag ∈ arguments ↔ jsonFlag ∈ others
  lenient : lenientFlag ∈ arguments ↔ lenientFlag ∈ others
  source : arguments.find? (¬IsFlag ·) = others.find? (¬IsFlag ·)

variable {arguments others before after : List String} {a : String}

/-- The first argument that is left without the flags is the first one that is no flag. -/
theorem ofArguments_eq_find? (arguments : List String) :
    Request.ofArguments arguments =
      { format := if jsonFlag ∈ arguments then .json else .plain
        mode := if lenientFlag ∈ arguments then .lenient else .strict
        source? := arguments.find? (¬IsFlag ·) } := by
  have hfilter : (arguments.filter fun a => a ≠ jsonFlag ∧ a ≠ lenientFlag) =
      arguments.filter (¬IsFlag ·) := by
    apply List.filter_congr
    intro a _
    exact decide_eq_decide.mpr not_or.symm
  rw [ofArguments_eq, hfilter, List.head?_filter]

theorem ofArguments_of_agree (h : Agree arguments others) :
    Request.ofArguments arguments = Request.ofArguments others := by
  rw [ofArguments_eq_find?, ofArguments_eq_find?, h.source]
  simp only [h.json, h.lenient]

/-- A run looks at its arguments through the request alone. -/
theorem run_of_agree (h : Agree arguments others) (input : ByteArray) :
    run arguments input = run others input := by
  rw [run, run, runHiding, runHiding, ofArguments_of_agree h]

theorem run_of_source (h : arguments.find? (¬IsFlag ·) = some a) (input : ByteArray) :
    run arguments input =
      listText (if jsonFlag ∈ arguments then .json else .plain)
        (if lenientFlag ∈ arguments then .lenient else .strict) a.toList := by
  rw [run, runHiding, ofArguments_eq_find?, h]
  rfl

/-- Arguments agree if the same flags occur anywhere among them and the others follow each other alike. -/
theorem agree_of_filter_eq (hflags : ∀ flag, IsFlag flag → (flag ∈ arguments ↔ flag ∈ others))
    (hplain : arguments.filter (¬IsFlag ·) = others.filter (¬IsFlag ·)) : Agree arguments others where
  json := hflags jsonFlag isFlag_json
  lenient := hflags lenientFlag isFlag_lenient
  source := by rw [← List.head?_filter, ← List.head?_filter, hplain]

/-- One more argument that is no flag does not make a flag occur. -/
theorem mem_insert_iff (ha : ¬IsFlag a) {flag : String} (hflag : IsFlag flag) :
    flag ∈ before ++ a :: after ↔ flag ∈ before ++ after := by
  have hne : flag ≠ a := by
    rintro rfl
    exact ha hflag
  rw [List.mem_append, List.mem_append, List.mem_cons, or_iff_right hne]

theorem agree_insert (ha : ¬IsFlag a) (hsource : ∃ b ∈ before, ¬IsFlag b) :
    Agree (before ++ a :: after) (before ++ after) where
  json := mem_insert_iff ha isFlag_json
  lenient := mem_insert_iff ha isFlag_lenient
  source := by
    obtain ⟨b, hb, hplain⟩ := hsource
    have hfound : (before.find? (¬IsFlag ·)).isSome = true :=
      List.find?_isSome.mpr ⟨b, hb, decide_eq_true hplain⟩
    rw [List.find?_append, List.find?_append, Option.or_of_isSome hfound, Option.or_of_isSome hfound]

theorem find?_insert (ha : ¬IsFlag a) (hbefore : ∀ b ∈ before, IsFlag b) :
    (before ++ a :: after).find? (¬IsFlag ·) = some a := by
  have hnone : before.find? (¬IsFlag ·) = none := by
    rw [List.find?_eq_none]
    intro b hb hplain
    exact of_decide_eq_true hplain (hbefore b hb)
  rw [List.find?_append, hnone, Option.none_or]
  exact List.find?_cons_of_pos (decide_eq_true ha)

/-- Runs with agreeing arguments leave behind the same, whatever the input is. So flags may be permuted,
repeated and moved, also behind the source. An argument that is no flag is the source if only flags come
before it, and has no influence otherwise, and in no case does it change what the flags ask for. -/
theorem run_flags_anywhere (input : ByteArray) :
    (∀ arguments others, Agree arguments others → run arguments input = run others input) ∧
      (∀ arguments others : List String, (∀ flag, IsFlag flag → (flag ∈ arguments ↔ flag ∈ others)) →
        arguments.filter (¬IsFlag ·) = others.filter (¬IsFlag ·) →
          run arguments input = run others input) ∧
      ∀ (before after : List String) (a : String), ¬IsFlag a →
        ((∃ source ∈ before, ¬IsFlag source) →
          run (before ++ a :: after) input = run (before ++ after) input) ∧
        ((∀ b ∈ before, IsFlag b) →
          run (before ++ a :: after) input =
            listText (if jsonFlag ∈ before ++ after then .json else .plain)
              (if lenientFlag ∈ before ++ after then .lenient else .strict) a.toList) := by
  refine ⟨fun _ _ h => run_of_agree h input, ?_, ?_⟩
  · intro arguments others hflags hplain
    exact run_of_agree (agree_of_filter_eq hflags hplain) input
  · intro before after a ha
    refine ⟨fun hsource => run_of_agree (agree_insert ha hsource) input, ?_⟩
    intro hbefore
    rw [run_of_source (find?_insert ha hbefore)]
    simp only [mem_insert_iff ha isFlag_json, mem_insert_iff ha isFlag_lenient]

/-- A flag that is repeated and moved to the front, an argument that is a flag but for its capitals, and an
input that is no text. -/
theorem run_flags_anywhere_capitals :
    let input : ByteArray := ⟨#[0xff]⟩
    Agree ["x", "--json", "--JSON"] ["--json", "--json", "x"] ∧
      run ["x", "--json", "--JSON"] input = run ["--json", "--json", "x"] input ∧
      ¬IsFlag "--JSON" ∧
      run ["--lenient", "--JSON", "x"] input = listText .plain .lenient "--JSON".toList := by
  intro input
  obtain ⟨hagree, -, hplain⟩ := run_flags_anywhere input
  have h : Agree ["x", "--json", "--JSON"] ["--json", "--json", "x"] :=
    ⟨by decide, by decide, by decide⟩
  have hcapitals : ¬IsFlag "--JSON" := by decide
  obtain ⟨-, hsource⟩ := hplain ["--lenient"] ["x"] "--JSON" hcapitals
  exact ⟨h, hagree _ _ h, hcapitals, hsource (by decide)⟩

end Lexemes.CommandLine
