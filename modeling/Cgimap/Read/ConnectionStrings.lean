/- path: Cgimap/Read/ConnectionStrings
   generality: I
   source: src/backend/apidb/utils.cpp, src/backend/apidb/readonly_pgsql_selection.cpp,
     src/backend/apidb/pgsql_update.cpp
   digest: Which option values the database library reads back from a connection string. -/

import Cgimap.Model.Types
import Mathlib.Data.List.TakeWhile

/-!
The reader of connection strings belongs to the database library. It is a parameter
here, with the documented rules for settings as its properties; a reader with these
rules follows for the examples.
-/

set_option autoImplicit false
set_option relaxedAutoImplicit false

namespace Cgimap.Read.ConnectionStrings

open Cgimap.Model.Types

section Source

def escapePgValue (value : List Char) : List Char :=
  let (escaped, needsQuotes) := value.foldl (fun (out : List Char × Bool) c =>
    if c = '\'' ∨ c = '\\' then (out.1 ++ ['\\'] ++ [c], true)
    else (out.1 ++ [c], out.2 || decide (c = ' '))) ([], decide (value = []))
  if needsQuotes then ['\''] ++ escaped ++ ['\''] else escaped

/-- A variables map whose values are texts. -/
abbrev Options := String → Option (List Char)

def setting (key : String) (value : List Char) : List Char :=
  key.toList ++ '=' :: escapePgValue value

def optionSetting (options : Options) (param key : String) : List Char :=
  match options param with
  | some value => ' ' :: setting key value
  | none => []

def connopt (options : Options) (param key : String) : List Char :=
  match options ("update-" ++ param) with
  | some value => ' ' :: setting key value
  | none => optionSetting options param key

def applicationSetting : List Char := " fallback_application_name=openstreetmap-cgimap".toList

def connectDbStr (options : Options) : Except Exception (List Char) :=
  match options "dbname" with
  | none => .error (.std "boost::bad_any_cast: failed conversion using boost::any_cast")
  | some dbname => .ok (setting "dbname" dbname ++ optionSetting options "host" "host" ++
      optionSetting options "username" "user" ++ optionSetting options "password" "password" ++
      optionSetting options "dbport" "port" ++ applicationSetting)

def connectUpdateDbStr (options : Options) : Except Exception (List Char) :=
  if (options "dbname").isNone ∧ (options "update-dbname").isNone then
    .error (.std "Must provide either one of --dbname or --update-dbname to configure database name for update (API write) connections.")
  else .ok (connopt options "dbname" "dbname" ++ connopt options "host" "host" ++
    connopt options "username" "user" ++ connopt options "password" "password" ++
    connopt options "dbport" "port" ++ applicationSetting)

end Source

section Reader

abbrev Settings := List (List Char × List Char)

/-- The keywords that the connection strings use. -/
def keywords : List String :=
  ["dbname", "host", "user", "password", "port", "fallback_application_name"]

def isBlank (c : Char) : Bool :=
  c = ' ' || c = '\t' || c = '\n' || c = '\x0b' || c = '\x0c' || c = '\r'

/-- The value inside quotes, and what follows its end. After a backslash the next character
is taken literally. -/
def quotedValue : Bool → List Char → Option (List Char × List Char)
  | _, [] => none
  | literal, c :: s =>
      if c = '\x00' then none
      else if literal then (quotedValue false s).map (fun p => (c :: p.1, p.2))
      else if c = '\'' then some ([], s)
      else if c = '\\' then quotedValue true s
      else (quotedValue false s).map (fun p => (c :: p.1, p.2))

/-- No character of a text means something to the reader. -/
def Plain (u : List Char) : Prop :=
  ∀ c ∈ u, isBlank c = false ∧ c ≠ '\'' ∧ c ≠ '\\' ∧ c ≠ '\x00'

instance (u : List Char) : Decidable (Plain u) := List.decidableBAll _ u

/-- What may follow a value without quotes. -/
def EndsValue (rest : List Char) : Prop := ∀ c ∈ rest.head?, isBlank c = true

/-- The rules of the database library for settings. -/
structure ReadsSettings (parse : List Char → Option Settings) : Prop where
  nothing : parse [] = some []
  blank : ∀ c s, isBlank c = true → parse (c :: s) = parse s
  padded : ∀ key ∈ keywords, ∀ c s, isBlank c = true →
    parse (key.toList ++ '=' :: c :: s) = parse (key.toList ++ '=' :: s)
  unquoted : ∀ key ∈ keywords, ∀ u rest, Plain u → (u = [] → rest = []) → EndsValue rest →
    parse (key.toList ++ '=' :: (u ++ rest)) = (parse rest).map (List.cons (key.toList, u))
  quoted : ∀ key ∈ keywords, ∀ s v rest, quotedValue false s = some (v, rest) →
    parse (key.toList ++ '=' :: '\'' :: s) = (parse rest).map (List.cons (key.toList, v))

/-- A setting with the value is read back, whatever settings follow. -/
def ReadsBack (parse : List Char → Option Settings) (v : List Char) : Prop :=
  ∀ key ∈ keywords, ∀ rest further, (rest = [] ∨ ∃ s, rest = ' ' :: s) → parse rest = some further →
    parse (setting key v ++ rest) = some ((key.toList, v) :: further)

end Reader

section Escaping

/-- The characters that `escape_pg_value` puts a backslash before. -/
def isEscaped (c : Char) : Bool := c = '\'' || c = '\\'

/-- The characters that make it use quotes. -/
def asksForQuotes (c : Char) : Bool := isEscaped c || c = ' '

def escapeChar (c : Char) : List Char := if isEscaped c then ['\\', c] else [c]

private theorem escapePgValue_loop (value : List Char) (out : List Char × Bool) :
    value.foldl (fun (out : List Char × Bool) c =>
        if c = '\'' ∨ c = '\\' then (out.1 ++ ['\\'] ++ [c], true)
        else (out.1 ++ [c], out.2 || decide (c = ' '))) out =
      (out.1 ++ value.flatMap escapeChar, out.2 || value.any asksForQuotes) := by
  induction value generalizing out with
  | nil => simp
  | cons c value ih =>
      rw [List.foldl_cons, ih, List.flatMap_cons, List.any_cons]
      by_cases escaped : c = '\'' ∨ c = '\\'
      · have yes : isEscaped c = true := by simpa [isEscaped] using escaped
        rw [if_pos escaped, escapeChar, if_pos yes, asksForQuotes, yes]
        simp
      · have no : isEscaped c = false := by simpa [isEscaped, not_or] using escaped
        rw [if_neg escaped, escapeChar, no, asksForQuotes, no]
        simp [Bool.or_assoc]

theorem escapePgValue_eq (value : List Char) :
    escapePgValue value = if value = [] ∨ value.any asksForQuotes = true then
      '\'' :: (value.flatMap escapeChar ++ ['\'']) else value.flatMap escapeChar := by
  unfold escapePgValue
  rw [escapePgValue_loop]
  simp

private theorem flatMap_escapeChar {value : List Char} (plain : value.any asksForQuotes = false) :
    value.flatMap escapeChar = value := by
  induction value with
  | nil => rfl
  | cons c value ih =>
      rw [List.any_cons, Bool.or_eq_false_iff, asksForQuotes, Bool.or_eq_false_iff] at plain
      rw [List.flatMap_cons, ih plain.2, escapeChar, plain.1.1]
      rfl

private theorem quotedValue_escape {value : List Char} (nul : '\x00' ∉ value) (rest : List Char) :
    quotedValue false (value.flatMap escapeChar ++ '\'' :: rest) = some (value, rest) := by
  induction value with
  | nil => rfl
  | cons c value ih =>
      obtain ⟨first, later⟩ := not_or.mp (fun both => nul (List.mem_cons.mpr both))
      have tail := ih later
      rw [List.flatMap_cons]
      by_cases escaped : isEscaped c = true
      · rw [escapeChar, if_pos escaped]
        change quotedValue false ('\\' :: c :: (value.flatMap escapeChar ++ '\'' :: rest)) = _
        rw [quotedValue, if_neg (by decide), if_neg (by decide), if_neg (by decide), if_pos rfl,
          quotedValue, if_neg (Ne.symm first), if_pos rfl, tail]
        rfl
      · rw [escapeChar, if_neg escaped]
        rw [isEscaped, Bool.or_eq_true, decide_eq_true_eq, decide_eq_true_eq, not_or] at escaped
        change quotedValue false (c :: (value.flatMap escapeChar ++ '\'' :: rest)) = _
        rw [quotedValue, if_neg (Ne.symm first), if_neg Bool.false_ne_true, if_neg escaped.1,
          if_neg escaped.2, tail]
        rfl

end Escaping

section Reading

variable {parse : List Char → Option Settings}

private theorem mem_keywords_dbname : "dbname" ∈ keywords := List.mem_cons_self

private theorem parse_dropWhile (reads : ReadsSettings parse) {key : String} (known : key ∈ keywords)
    (s : List Char) :
    parse (key.toList ++ '=' :: s) = parse (key.toList ++ '=' :: s.dropWhile isBlank) := by
  induction s with
  | nil => rfl
  | cons c s ih =>
      by_cases blank : isBlank c = true
      · rw [List.dropWhile_cons_of_pos blank, ← ih]
        exact reads.padded key known c s blank
      · rw [List.dropWhile_cons_of_neg blank]

private theorem endsValue_dropWhile (s : List Char) : EndsValue (s.dropWhile (fun c => !isBlank c)) := by
  intro c first
  have stop := List.head?_dropWhile_not (fun c => !isBlank c) s
  rw [Option.mem_def.mp first] at stop
  simpa using stop

private theorem parse_unquoted (reads : ReadsSettings parse) {key : String} (known : key ∈ keywords)
    {s : List Char} (plain : ∀ c ∈ s, c ≠ '\'' ∧ c ≠ '\\' ∧ c ≠ '\x00')
    (nonblank : ∀ c ∈ s.head?, isBlank c = false) :
    parse (key.toList ++ '=' :: s) = (parse (s.dropWhile (fun c => !isBlank c))).map
      (List.cons (key.toList, s.takeWhile (fun c => !isBlank c))) := by
  have front : Plain (s.takeWhile (fun c => !isBlank c)) := fun c member =>
    ⟨by simpa using List.mem_takeWhile_imp member, plain c (List.takeWhile_subset _ member)⟩
  have empty : s.takeWhile (fun c => !isBlank c) = [] → s.dropWhile (fun c => !isBlank c) = [] := by
    intro none
    cases s with
    | nil => rfl
    | cons c s =>
        rw [List.takeWhile_cons_of_pos (by simpa using nonblank c rfl)] at none
        cases none
  rw [← reads.unquoted key known _ _ front empty (endsValue_dropWhile s), List.takeWhile_append_dropWhile]

private theorem readsBack_of_quoted (reads : ReadsSettings parse) {v : List Char} (nul : '\x00' ∉ v)
    (quoted : v = [] ∨ v.any asksForQuotes = true) : ReadsBack parse v := by
  intro key known rest further _ follows
  unfold setting
  rw [escapePgValue_eq, if_pos quoted, List.append_assoc, List.cons_append, List.cons_append,
    List.append_assoc, List.singleton_append,
    reads.quoted key known _ v rest (quotedValue_escape nul rest), follows]
  rfl

private theorem plain_of_unquoted {v : List Char} (nul : '\x00' ∉ v)
    (asks : ∀ c ∈ v, asksForQuotes c = false) : ∀ c ∈ v, c ≠ '\'' ∧ c ≠ '\\' ∧ c ≠ '\x00' := by
  intro c member
  have own := asks c member
  rw [asksForQuotes, isEscaped, Bool.or_eq_false_iff, Bool.or_eq_false_iff, decide_eq_false_iff_not,
    decide_eq_false_iff_not] at own
  exact ⟨own.1.1, own.1.2, fun zero => nul (zero ▸ member)⟩

/-- A value without quotes ends at its first blank, and blanks before it are skipped. -/
private theorem unblanked_of_readsBack (reads : ReadsSettings parse) {v : List Char} (nul : '\x00' ∉ v)
    (asks : v.any asksForQuotes = false) (readsBack : ReadsBack parse v) :
    ∀ c ∈ v, isBlank c = false := by
  have plain := plain_of_unquoted nul fun c member => by
    simpa using List.any_eq_false.mp asks c member
  by_contra blank
  push Not at blank
  obtain ⟨c, member, isSpace⟩ := blank
  rw [ne_eq, Bool.not_eq_false] at isSpace
  have nonempty : v ≠ [] := List.ne_nil_of_mem member
  have whole := readsBack "dbname" mem_keywords_dbname [] [] (Or.inl rfl) reads.nothing
  unfold setting at whole
  rw [escapePgValue_eq, if_neg (not_or.mpr ⟨nonempty, by rw [asks]; decide⟩), flatMap_escapeChar asks,
    List.append_nil, parse_dropWhile reads mem_keywords_dbname,
    parse_unquoted reads mem_keywords_dbname (fun d inside => plain d (List.dropWhile_subset _ inside))
      (fun d first => by
        have stop := List.head?_dropWhile_not isBlank v
        rw [Option.mem_def.mp first] at stop
        exact stop)] at whole
  obtain ⟨further, -, same⟩ := Option.map_eq_some_iff.mp whole
  have value : (v.dropWhile isBlank).takeWhile (fun d => !isBlank d) = v :=
    (Prod.mk.inj (List.cons.inj same).1).2
  rw [← value] at member
  have not_blank := List.mem_takeWhile_imp member
  rw [isSpace] at not_blank
  cases not_blank

private theorem readsBack_of_unblanked (reads : ReadsSettings parse) {v : List Char} (nul : '\x00' ∉ v)
    (nonempty : v ≠ []) (asks : v.any asksForQuotes = false) (unblanked : ∀ c ∈ v, isBlank c = false) :
    ReadsBack parse v := by
  have plain := plain_of_unquoted nul fun c member => by
    simpa using List.any_eq_false.mp asks c member
  intro key known rest further begins follows
  unfold setting
  rw [escapePgValue_eq, if_neg (not_or.mpr ⟨nonempty, by rw [asks]; decide⟩), flatMap_escapeChar asks,
    List.append_assoc, List.cons_append, reads.unquoted key known v rest
      (fun c member => ⟨unblanked c member, plain c member⟩) (fun none => absurd none nonempty) ?_, follows]
  · rfl
  · rintro c first
    rcases begins with rfl | ⟨s, rfl⟩
    · cases first
    · cases first
      rfl

/-- A value is read back exactly when it has no blank that `escape_pg_value` overlooks. -/
theorem readsBack_iff (reads : ReadsSettings parse) {v : List Char} (nul : '\x00' ∉ v) :
    ReadsBack parse v ↔ (∃ c ∈ v, asksForQuotes c = true) ∨ ∀ c ∈ v, isBlank c = false := by
  rw [← List.any_eq_true]
  cases asks : v.any asksForQuotes with
  | true => exact iff_of_true (readsBack_of_quoted reads nul (Or.inr asks)) (Or.inl rfl)
  | false =>
      rw [or_iff_right Bool.false_ne_true]
      constructor
      · exact unblanked_of_readsBack reads nul asks
      · intro unblanked
        by_cases empty : v = []
        · exact readsBack_of_quoted reads nul (Or.inl empty)
        · exact readsBack_of_unblanked reads nul empty asks unblanked

/-- Further settings, and what they are read as. -/
def Continues (parse : List Char → Option Settings) (rest : List Char) (further : Settings) : Prop :=
  (rest = [] ∨ ∃ s, rest = ' ' :: s) ∧ parse rest = some further

def optionValue (options : Options) (param key : String) : Settings :=
  ((options param).map (Prod.mk key.toList)).toList

/-- The option that `connopt` uses. -/
def updateValue (options : Options) (param key : String) : Settings :=
  (((options ("update-" ++ param)).or (options param)).map (Prod.mk key.toList)).toList

private theorem continues_application (reads : ReadsSettings parse) :
    Continues parse applicationSetting
      [("fallback_application_name".toList, "openstreetmap-cgimap".toList)] := by
  have name : "fallback_application_name" ∈ keywords := by decide
  have plain : Plain "openstreetmap-cgimap".toList := by decide
  have value := reads.unquoted "fallback_application_name" name "openstreetmap-cgimap".toList [] plain
    (fun none => by cases none) (fun c first => by cases first)
  rw [reads.nothing] at value
  exact ⟨Or.inr ⟨_, rfl⟩, (reads.blank ' ' _ rfl).trans value⟩

private theorem Continues.setting (reads : ReadsSettings parse) {rest : List Char} {further : Settings}
    (follows : Continues parse rest further) {key : String} (known : key ∈ keywords) {v : List Char}
    (readable : ReadsBack parse v) :
    Continues parse (' ' :: ConnectionStrings.setting key v ++ rest) ((key.toList, v) :: further) := by
  refine ⟨Or.inr ⟨_, rfl⟩, (reads.blank ' ' _ rfl).trans ?_⟩
  exact readable key known rest further follows.1 follows.2

variable {options : Options}

private theorem Continues.option (reads : ReadsSettings parse) {rest : List Char} {further : Settings}
    (follows : Continues parse rest further) (param key : String) (known : key ∈ keywords)
    (readable : ∀ v, options param = some v → ReadsBack parse v) :
    Continues parse (optionSetting options param key ++ rest) (optionValue options param key ++ further) := by
  unfold optionSetting optionValue
  cases given : options param with
  | none => exact follows
  | some v => exact follows.setting reads known (readable v given)

private theorem Continues.connopt (reads : ReadsSettings parse) {rest : List Char} {further : Settings}
    (follows : Continues parse rest further) (param key : String) (known : key ∈ keywords)
    (readable : ∀ name v, options name = some v → ReadsBack parse v) :
    Continues parse (ConnectionStrings.connopt options param key ++ rest)
      (updateValue options param key ++ further) := by
  unfold ConnectionStrings.connopt updateValue
  cases given : options ("update-" ++ param) with
  | some v => exact follows.setting reads known (readable _ v given)
  | none => exact follows.option reads param key known (readable param)

theorem connectDbStr_settings (reads : ReadsSettings parse)
    (readable : ∀ name v, options name = some v → ReadsBack parse v) {text : List Char}
    (built : connectDbStr options = .ok text) :
    parse text = some (optionValue options "dbname" "dbname" ++ optionValue options "host" "host" ++
      optionValue options "username" "user" ++ optionValue options "password" "password" ++
      optionValue options "dbport" "port" ++
      [("fallback_application_name".toList, "openstreetmap-cgimap".toList)]) := by
  unfold connectDbStr at built
  cases given : options "dbname" with
  | none =>
      rw [given] at built
      cases built
  | some dbname =>
      rw [given] at built
      cases built
      have port := (continues_application reads).option reads "dbport" "port" (by decide) (readable "dbport")
      have password := port.option reads "password" "password" (by decide) (readable "password")
      have user := password.option reads "username" "user" (by decide) (readable "username")
      have host := user.option reads "host" "host" (by decide) (readable "host")
      have first := readable "dbname" dbname given "dbname" (by decide) _ _ host.1 host.2
      simp only [List.append_assoc] at first ⊢
      rw [first]
      simp [optionValue, given]

theorem connectUpdateDbStr_settings (reads : ReadsSettings parse)
    (readable : ∀ name v, options name = some v → ReadsBack parse v) {text : List Char}
    (built : connectUpdateDbStr options = .ok text) :
    parse text = some (updateValue options "dbname" "dbname" ++ updateValue options "host" "host" ++
      updateValue options "username" "user" ++ updateValue options "password" "password" ++
      updateValue options "dbport" "port" ++
      [("fallback_application_name".toList, "openstreetmap-cgimap".toList)]) := by
  unfold connectUpdateDbStr at built
  split at built
  · cases built
  · cases built
    have port := (continues_application reads).connopt reads "dbport" "port" (by decide) readable
    have password := port.connopt reads "password" "password" (by decide) readable
    have user := password.connopt reads "username" "user" (by decide) readable
    have host := user.connopt reads "host" "host" (by decide) readable
    have dbname := host.connopt reads "dbname" "dbname" (by decide) readable
    simp only [List.append_assoc]
    exact dbname.2

end Reading

section Conninfo

/-- Where the reader is in a connection string; texts that are being read are reversed. -/
inductive Place where
  | between
  | name (read : List Char)
  | named (key : List Char)
  | assigned (key : List Char)
  | bare (key read : List Char)
  | bareLiteral (key read : List Char)
  | quoted (key read : List Char)
  | quotedLiteral (key read : List Char)

/-- What one character does: the reader goes on, or it has read a setting. -/
inductive Advance where
  | goes (place : Place)
  | stores (key value : List Char)
  | fails

def assign (key : List Char) : Advance :=
  if (keywords.map String.toList).contains key then .goes (.assigned key) else .fails

def Place.advance : Place → Char → Advance
  | .between, c => if isBlank c then .goes .between else if c = '=' then .fails else .goes (.name [c])
  | .name read, c =>
      if c = '=' then assign read.reverse
      else if isBlank c then .goes (.named read.reverse)
      else .goes (.name (c :: read))
  | .named key, c => if isBlank c then .goes (.named key) else if c = '=' then assign key else .fails
  | .assigned key, c =>
      if isBlank c then .goes (.assigned key)
      else if c = '\'' then .goes (.quoted key [])
      else if c = '\\' then .goes (.bareLiteral key [])
      else .goes (.bare key [c])
  | .bare key read, c =>
      if isBlank c then .stores key read.reverse
      else if c = '\\' then .goes (.bareLiteral key read)
      else .goes (.bare key (c :: read))
  | .bareLiteral key read, c => .goes (.bare key (c :: read))
  | .quoted key read, c =>
      if c = '\'' then .stores key read.reverse
      else if c = '\\' then .goes (.quotedLiteral key read)
      else .goes (.quoted key (c :: read))
  | .quotedLiteral key read, c => .goes (.quoted key (c :: read))

def Place.finish : Place → Option Settings
  | .between => some []
  | .assigned key => some [(key, [])]
  | .bare key read | .bareLiteral key read => some [(key, read.reverse)]
  | .name _ | .named _ | .quoted _ _ | .quotedLiteral _ _ => none

def scan : Place → List Char → Option Settings
  | place, [] => place.finish
  | place, c :: s =>
      if c = '\x00' then place.finish
      else
        match place.advance c with
        | .goes next => scan next s
        | .stores key value => (scan .between s).map (List.cons (key, value))
        | .fails => none

/-- `conninfo_parse` of the library, with the settings that it stores. -/
def conninfoParse (s : List Char) : Option Settings := scan .between s

private theorem scan_goes {place next : Place} {c : Char} (nul : c ≠ '\x00')
    (goes : place.advance c = .goes next) (s : List Char) : scan place (c :: s) = scan next s := by
  rw [scan, if_neg nul, goes]

private theorem scan_key {key : String} (known : key ∈ keywords) (s : List Char) :
    scan .between (key.toList ++ '=' :: s) = scan (.assigned key.toList) s := by
  simp only [keywords, List.mem_cons, List.not_mem_nil, or_false] at known
  rcases known with rfl | rfl | rfl | rfl | rfl | rfl <;> rfl

private theorem blank_ne_nul {c : Char} (blank : isBlank c = true) : c ≠ '\x00' := by
  rintro rfl
  exact absurd blank (by decide)

private theorem scan_bare (key : List Char) {u rest : List Char} (plain : Plain u) (ends : EndsValue rest)
    (read : List Char) :
    scan (.bare key read) (u ++ rest) =
      (scan .between rest).map (List.cons (key, read.reverse ++ u)) := by
  induction u generalizing read with
  | nil =>
      rw [List.nil_append, List.append_nil]
      cases rest with
      | nil => rfl
      | cons c rest =>
          have blank := ends c rfl
          rw [scan, if_neg (blank_ne_nul blank), Place.advance, if_pos blank,
            scan_goes (blank_ne_nul blank) (by rw [Place.advance, if_pos blank]) rest]
  | cons c u ih =>
      obtain ⟨nonblank, -, backslash, nul⟩ := plain c List.mem_cons_self
      have step : (Place.bare key read).advance c = .goes (.bare key (c :: read)) := by
        rw [Place.advance, nonblank, if_neg Bool.false_ne_true, if_neg backslash]
      rw [List.cons_append, scan_goes nul step,
        ih (fun d member => plain d (List.mem_cons_of_mem c member)), List.reverse_cons,
        List.append_assoc, List.singleton_append]

private theorem scan_quoted (key : List Char) {s v rest : List Char} (literal : Bool) (read : List Char)
    (value : quotedValue literal s = some (v, rest)) :
    scan (if literal then .quotedLiteral key read else .quoted key read) s =
      (scan .between rest).map (List.cons (key, read.reverse ++ v)) := by
  induction s generalizing literal read v with
  | nil => cases value
  | cons c s ih =>
      rw [quotedValue] at value
      by_cases nul : c = '\x00'
      · rw [if_pos nul] at value
        cases value
      · rw [if_neg nul] at value
        -- what the rest of the text adds to the value
        have taken : (quotedValue false s).map (fun p => (c :: p.1, p.2)) = some (v, rest) →
            scan (.quoted key (c :: read)) s = (scan .between rest).map (List.cons (key, read.reverse ++ v)) := by
          intro more
          obtain ⟨⟨v', rest'⟩, tail, same⟩ := Option.map_eq_some_iff.mp more
          cases same
          have own := ih false (c :: read) tail
          rw [List.reverse_cons, List.append_assoc, List.singleton_append] at own
          exact own
        cases literal with
        | true =>
            rw [if_pos rfl] at value
            exact (scan_goes nul rfl s).trans (taken value)
        | false =>
            rw [if_neg Bool.false_ne_true] at value
            rw [if_neg Bool.false_ne_true]
            by_cases quote : c = '\''
            · rw [if_pos quote] at value
              cases value
              rw [scan, if_neg nul, Place.advance, if_pos quote, List.append_nil]
            · rw [if_neg quote] at value
              by_cases backslash : c = '\\'
              · rw [if_pos backslash] at value
                rw [scan_goes nul (by rw [Place.advance, if_neg quote, if_pos backslash])]
                exact ih true read value
              · rw [if_neg backslash] at value
                rw [scan_goes nul (by rw [Place.advance, if_neg quote, if_neg backslash])]
                exact taken value

theorem readsSettings_conninfoParse : ReadsSettings conninfoParse where
  nothing := rfl
  blank c s blank := scan_goes (blank_ne_nul blank) (by rw [Place.advance, if_pos blank]) s
  padded key known c s blank := by
    unfold conninfoParse
    rw [scan_key known, scan_key known]
    exact scan_goes (blank_ne_nul blank) (by rw [Place.advance, if_pos blank]) s
  unquoted key known u rest plain alone ends := by
    unfold conninfoParse
    rw [scan_key known]
    cases u with
    | nil =>
        rw [alone rfl]
        rfl
    | cons c u =>
        obtain ⟨nonblank, quote, backslash, nul⟩ := plain c List.mem_cons_self
        have step : (Place.assigned key.toList).advance c = .goes (.bare key.toList [c]) := by
          rw [Place.advance, nonblank, if_neg Bool.false_ne_true, if_neg quote, if_neg backslash]
        rw [List.cons_append, scan_goes nul step]
        exact scan_bare key.toList (fun d member => plain d (List.mem_cons_of_mem c member)) ends [c]
  quoted key known s v rest value := by
    unfold conninfoParse
    rw [scan_key known, scan_goes (by decide) rfl]
    exact scan_quoted key.toList false [] value

/-- A password with a tabulator beside a space, before another setting. -/
theorem readsBack_iff_conninfoParse : ReadsBack conninfoParse "my \tword".toList :=
  (readsBack_iff readsSettings_conninfoParse (by decide)).mpr (Or.inl ⟨' ', by decide, by decide⟩)

/-- A tabulator alone ends the value. -/
theorem not_readsBack_conninfoParse :
    ¬∀ parse : List Char → Option Settings, ReadsSettings parse →
      ∀ v : List Char, '\x00' ∉ v → ReadsBack parse v := by
  intro all
  have whole := all conninfoParse readsSettings_conninfoParse "my\tword".toList (by decide)
    "password" (by decide) [] [] (Or.inl rfl) rfl
  exact absurd whole (by decide)

end Conninfo

end Cgimap.Read.ConnectionStrings
