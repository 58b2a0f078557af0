/- path: Cgimap/Http/EncodingChoice
   generality: I
   source: src/http.cpp, src/request_helpers.cpp, test/test_http.cpp
   digest: Which content coding is chosen, in what order the codings stand and what fails. -/

import Cgimap.Http.HeaderLists
import Cgimap.Library.KeyedTable

set_option autoImplicit false
set_option relaxedAutoImplicit false

namespace Cgimap.Http.EncodingChoice

open Cgimap.Library.KeyedTable
open Cgimap.Model.Types
open Cgimap.Http.Requests
open Cgimap.Http.Negotiation
open Cgimap.Http.HeaderLists

section Items

/-- An item of the header: a coding, and its quality where it has one. -/
structure EncodingItem where
  coding : Text
  weight : Option Weight
  named : coding ≠ []
  plain : ',' ∉ coding ∧ ';' ∉ coding

def EncodingItem.quality (item : EncodingItem) : ℚ :=
  match item.weight with
  | none => 1
  | some w => w.value

def EncodingItem.text (item : EncodingItem) : Text :=
  match item.weight with
  | none => item.coding
  | some w => item.coding ++ (";q=".toList ++ w.text)

def headerText (items : List EncodingItem) : Text :=
  ", ".toList.intercalate (items.map EncodingItem.text)

/-- The quality that is listed for a name. -/
def weightOf (items : List EncodingItem) (name : Text) : Option ℚ :=
  (items.find? (fun item => item.coding = name)).map EncodingItem.quality

/-- The quality of a coding: its own one, else that of `*`. -/
def effective (items : List EncodingItem) (c : Encoding) : ℚ :=
  ((weightOf items c.name.toList).or (weightOf items "*".toList)).getD 0

def supported (build : Build) : Encoding → Bool
  | .identity => true
  | .deflate | .gzip => build.haveLibz
  | .brotli => build.haveBrotli

/-- Which of two codings of the same quality goes first. -/
def rank : Encoding → Nat
  | .identity => 0
  | .gzip => 1
  | .deflate => 2
  | .brotli => 3

end Items

section Reading

variable (numbers : Numbers)

/-- `stof` reads the qualities of the header as the decimals that they are. -/
def ReadsExactly (items : List EncodingItem) : Prop :=
  ∀ item ∈ items, ∀ w, item.weight = some w → numbers.stof w.text = some (some w.value)

private theorem encodingItem_text {item : EncodingItem}
    (exact : ∀ w, item.weight = some w → numbers.stof w.text = some (some w.value)) :
    encodingItem numbers item.text = .ok (item.coding, item.quality) := by
  cases weighs : item.weight with
  | none =>
      have text : item.text = item.coding := by rw [EncodingItem.text, weighs]
      have quality : item.quality = 1 := by rw [EncodingItem.quality, weighs]
      have parts : splitText item.coding ";q=".toList = [item.coding] :=
        splitText_single ';' "q=".toList item.plain.2 item.named
      rw [encodingItem, text, parts, quality]
  | some w =>
      have text : item.text = item.coding ++ (";q=".toList ++ w.text) := by
        rw [EncodingItem.text, weighs]
      have quality : item.quality = w.value := by rw [EncodingItem.quality, weighs]
      have parts : splitText (item.coding ++ (";q=".toList ++ w.text)) ";q=".toList =
          [item.coding, w.text] :=
        splitText_pair ';' "q=".toList item.plain.2 (w.toDecimal.not_mem_text (by decide))
      rw [encodingItem, text, parts, quality]
      dsimp only
      rw [exact w weighs]
      exact if_pos ⟨w.value_nonneg, w.bounded⟩

private theorem comma_not_mem_text (item : EncodingItem) : ',' ∉ item.text := by
  unfold EncodingItem.text
  split
  · exact item.plain.1
  · rename_i w _
    rw [List.mem_append, List.mem_append, not_or, not_or]
    exact ⟨item.plain.1, by decide, w.toDecimal.not_mem_text (by decide)⟩

private theorem text_ne_nil (item : EncodingItem) : item.text ≠ [] := by
  unfold EncodingItem.text
  split
  · exact item.named
  · exact List.append_ne_nil_of_left_ne_nil item.named _

/-- The qualities after some items. -/
def recordAll (items : List EncodingItem) (qs : Qualities) : Qualities :=
  items.foldl (fun qs item => qs.record item.coding item.quality) qs

def noEncoding : Exception := .notAcceptable
  "No acceptable content encoding found. Only identity and gzip are supported."

/-- The branches at the end of `choose_encoding`. -/
def selectEncoding (build : Build) (qs : Qualities) : Except Exception Encoding :=
  if build.haveBrotli ∧ 0 < qs.brotli ∧ qs.identity ≤ qs.brotli ∧ qs.deflate ≤ qs.brotli ∧
      qs.gzip ≤ qs.brotli then .ok .brotli
  else if build.haveLibz ∧ 0 < qs.deflate ∧ qs.gzip ≤ qs.deflate ∧ qs.identity ≤ qs.deflate then
    .ok .deflate
  else if build.haveLibz ∧ 0 < qs.gzip ∧ qs.identity ≤ qs.gzip then .ok .gzip
  else if 0 < qs.identity then .ok .identity
  else .error noEncoding

private theorem chooseEncoding_headerText (build : Build) {items : List EncodingItem}
    (nonempty : items ≠ []) (exact : ReadsExactly numbers items) :
    chooseEncoding build numbers (headerText items) =
      selectEncoding build (recordAll items ⟨0, 0, 0, 0⟩) := by
  have parts : splitText (headerText items) ", ".toList = items.map EncodingItem.text := by
    refine splitText_intercalate ',' " ".toList ?_ ?_
    · intro text member
      obtain ⟨item, -, rfl⟩ := List.mem_map.mp member
      exact comma_not_mem_text item
    · intro text member
      obtain ⟨item, -, rfl⟩ := List.mem_map.mp member
      exact text_ne_nil item
  have recorded : ∀ (items : List EncodingItem) (qs : Qualities), ReadsExactly numbers items →
      (items.map EncodingItem.text).foldlM (fun qs item => encodingItem numbers item >>= fun p =>
        Except.ok (Qualities.record qs p.1 p.2)) qs = .ok (recordAll items qs) := by
    intro items
    induction items with
    | nil => exact fun _ _ => rfl
    | cons item items ih =>
        intro qs exact
        rw [List.map_cons, List.foldlM_cons, encodingItem_text numbers (exact item List.mem_cons_self)]
        exact ih _ fun other member => exact other (List.mem_cons_of_mem _ member)
  unfold chooseEncoding
  dsimp only
  rw [parts, if_neg (by rwa [List.map_eq_nil_iff])]
  exact congrArg (fun result => result >>= selectEncoding build) (recorded items _ exact)

end Reading

section Running

def Qualities.of (qs : Qualities) : Encoding → ℚ
  | .identity => qs.identity
  | .deflate => qs.deflate
  | .gzip => qs.gzip
  | .brotli => qs.brotli

private theorem of_record (qs : Qualities) (name : Text) (quality : ℚ) (c : Encoding) :
    Qualities.of (qs.record name quality) c =
      if name = c.name.toList then quality
      else if name = "*".toList then unlessZero (Qualities.of qs c) quality
      else Qualities.of qs c := by
  unfold Qualities.record
  by_cases identity : name = "identity".toList
  · subst identity
    cases c <;> rfl
  by_cases deflate : name = "deflate".toList
  · subst deflate
    cases c <;> rfl
  by_cases gzip : name = "gzip".toList
  · subst gzip
    cases c <;> rfl
  by_cases brotli : name = "br".toList
  · subst brotli
    cases c <;> rfl
  have other : name ≠ c.name.toList := by
    cases c
    exacts [identity, deflate, gzip, brotli]
  rw [if_neg identity, if_neg deflate, if_neg gzip, if_neg brotli, if_neg other]
  by_cases star : name = "*".toList
  · rw [if_pos star, if_pos star]
    cases c <;> rfl
  · rw [if_neg star, if_neg star]

variable (c : Encoding)

/-- What an item makes of the running value. -/
def hear (q : ℚ) (item : EncodingItem) : ℚ :=
  if item.coding = c.name.toList then item.quality
  else if item.coding = "*".toList then unlessZero q item.quality
  else q

def heard (items : List EncodingItem) : ℚ := items.foldl (hear c) 0

private theorem of_recordAll (items : List EncodingItem) (qs : Qualities) :
    Qualities.of (recordAll items qs) c = items.foldl (hear c) (Qualities.of qs c) := by
  induction items generalizing qs with
  | nil => rfl
  | cons item items ih =>
      rw [List.foldl_cons, hear, ← of_record]
      exact ih _

private theorem of_heard (items : List EncodingItem) :
    Qualities.of (recordAll items ⟨0, 0, 0, 0⟩) c = heard c items := by
  rw [of_recordAll, heard]
  cases c <;> rfl

variable {c} {items : List EncodingItem}

private theorem name_ne_star (c : Encoding) : c.name.toList ≠ "*".toList := by
  cases c <;> decide

private theorem foldl_kept {q : ℚ} (nonzero : q ≠ 0)
    (unlisted : ∀ item ∈ items, item.coding ≠ c.name.toList) : items.foldl (hear c) q = q := by
  induction items with
  | nil => rfl
  | cons item items ih =>
      have step : hear c q item = q := by
        rw [hear, if_neg (unlisted item List.mem_cons_self)]
        split
        · exact if_neg nonzero
        · rfl
      rw [List.foldl_cons, step]
      exact ih fun other member => unlisted other (List.mem_cons_of_mem _ member)

private theorem foldl_silent (q : ℚ)
    (silent : ∀ item ∈ items, item.coding ≠ c.name.toList ∧ item.coding ≠ "*".toList) :
    items.foldl (hear c) q = q := by
  induction items with
  | nil => rfl
  | cons item items ih =>
      have head := silent item List.mem_cons_self
      rw [List.foldl_cons, hear, if_neg head.1, if_neg head.2]
      exact ih fun other member => silent other (List.mem_cons_of_mem _ member)

private theorem foldl_unlisted (unlisted : ∀ item ∈ items, item.coding ≠ c.name.toList) :
    items.foldl (hear c) 0 = 0 ∨
      ∃ item ∈ items, item.coding = "*".toList ∧ items.foldl (hear c) 0 = item.quality := by
  induction items with
  | nil => exact Or.inl rfl
  | cons item items ih =>
      have rest : ∀ other ∈ items, other.coding ≠ c.name.toList :=
        fun other member => unlisted other (List.mem_cons_of_mem _ member)
      have step : hear c 0 item = if item.coding = "*".toList then item.quality else 0 := by
        rw [hear, if_neg (unlisted item List.mem_cons_self)]
        rfl
      rw [List.foldl_cons, step]
      by_cases star : item.coding = "*".toList ∧ item.quality ≠ 0
      · rw [if_pos star.1, foldl_kept star.2 rest]
        exact Or.inr ⟨item, List.mem_cons_self, star.1, rfl⟩
      · have zero : (if item.coding = "*".toList then item.quality else 0) = 0 := by
          split
          · rename_i named
            exact not_not.mp fun nonzero => star ⟨named, nonzero⟩
          · rfl
        rw [zero]
        rcases ih rest with same | ⟨other, member, named, same⟩
        · exact Or.inl same
        · exact Or.inr ⟨other, List.mem_cons_of_mem _ member, named, same⟩

end Running

section Listed

/-- Each coding is listed at most once. -/
def Distinct (items : List EncodingItem) : Prop := (items.map EncodingItem.coding).Nodup

variable {items : List EncodingItem} {c : Encoding} {name : Text} {q : ℚ}

private theorem weightOf_eq_none :
    weightOf items name = none ↔ ∀ item ∈ items, item.coding ≠ name := by
  rw [weightOf, Option.map_eq_none_iff, List.find?_eq_none]
  simp only [decide_eq_true_eq, ne_eq]

private theorem weightOf_eq_some (distinct : Distinct items) :
    weightOf items name = some q ↔ ∃ item ∈ items, item.coding = name ∧ item.quality = q := by
  rw [weightOf, Option.map_eq_some_iff]
  constructor
  · rintro ⟨item, found, quality⟩
    exact ⟨item, List.mem_of_find?_eq_some found, by simpa using List.find?_some found, quality⟩
  · rintro ⟨item, member, rfl, quality⟩
    exact ⟨item, find?_key_eq_some distinct member, quality⟩

private theorem weightOf_perm {items' : List EncodingItem} (distinct : Distinct items)
    (perm : items'.Perm items) (name : Text) : weightOf items' name = weightOf items name := by
  have distinct' : Distinct items' := (perm.map EncodingItem.coding).nodup_iff.mpr distinct
  refine Option.ext fun q => ?_
  rw [weightOf_eq_some distinct', weightOf_eq_some distinct]
  simp only [perm.mem_iff]

private theorem exists_split (distinct : Distinct items) (listed : weightOf items name = some q) :
    ∃ before item after, items = before ++ item :: after ∧ item.coding = name ∧ item.quality = q ∧
      (∀ other ∈ before, other.coding ≠ name) ∧ ∀ other ∈ after, other.coding ≠ name := by
  obtain ⟨item, member, rfl, quality⟩ := (weightOf_eq_some distinct).mp listed
  obtain ⟨before, after, rfl⟩ := List.append_of_mem member
  rw [Distinct, List.map_append, List.map_cons, List.nodup_append, List.nodup_cons] at distinct
  refine ⟨before, item, after, rfl, rfl, quality, fun other inside same => ?_, fun other inside same => ?_⟩
  · exact distinct.2.2 _ (List.mem_map_of_mem inside) _ List.mem_cons_self same
  · exact distinct.2.1.1 (same ▸ List.mem_map_of_mem inside)

private theorem heard_split {before after : List EncodingItem} {item : EncodingItem}
    (listed : item.coding = c.name.toList) :
    heard c (before ++ item :: after) = after.foldl (hear c) item.quality := by
  rw [heard, List.foldl_append, List.foldl_cons, hear, if_pos listed]

private theorem effective_listed (listed : weightOf items c.name.toList = some q) :
    effective items c = q := by
  rw [effective, listed]
  rfl

private theorem effective_unlisted (unlisted : weightOf items c.name.toList = none) :
    effective items c = (weightOf items "*".toList).getD 0 := by
  rw [effective, unlisted, Option.none_or]

/-- A coding has its effective quality, unless it is listed as forbidden and `*` overwrites
that. -/
private theorem heard_cases (distinct : Distinct items) (c : Encoding) :
    heard c items = effective items c ∨
      (weightOf items c.name.toList = some 0 ∧ weightOf items "*".toList = some (heard c items)) := by
  cases listed : weightOf items c.name.toList with
  | some q =>
      obtain ⟨before, item, after, rfl, named, rfl, -, unlisted⟩ := exists_split distinct listed
      rw [effective_listed listed, heard_split named]
      by_cases zero : item.quality = 0
      · rw [zero]
        rcases foldl_unlisted unlisted with same | ⟨other, inside, star, same⟩
        · exact Or.inl same
        · refine Or.inr ⟨rfl, (weightOf_eq_some distinct).mpr ⟨other, ?_, star, same.symm⟩⟩
          exact List.mem_append_right _ (List.mem_cons_of_mem _ inside)
      · exact Or.inl (foldl_kept zero unlisted)
  | none =>
      left
      rw [effective_unlisted listed]
      cases star : weightOf items "*".toList with
      | none =>
          rcases foldl_unlisted (weightOf_eq_none.mp listed) with same | ⟨other, inside, named, -⟩
          · exact same
          · exact absurd named (weightOf_eq_none.mp star other inside)
      | some w =>
          obtain ⟨before, item, after, rfl, named, rfl, none, none'⟩ := exists_split distinct star
          have unlisted := weightOf_eq_none.mp listed
          have first : before.foldl (hear c) 0 = 0 := foldl_silent 0 fun other inside =>
            ⟨unlisted other (List.mem_append_left _ inside), none other inside⟩
          have step : hear c 0 item = item.quality := by
            rw [hear, if_neg (by rw [named]; exact (name_ne_star c).symm), if_pos named]
            rfl
          rw [heard, List.foldl_append, first, List.foldl_cons, step]
          exact foldl_silent _ fun other inside =>
            ⟨unlisted other (List.mem_append_right _ (List.mem_cons_of_mem _ inside)),
              none' other inside⟩

private theorem heard_after {before after : List EncodingItem} {star : EncodingItem}
    (distinct : Distinct (before ++ star :: after)) (named : star.coding = "*".toList)
    (later : ∀ other ∈ before, other.coding ≠ c.name.toList) :
    heard c (before ++ star :: after) = effective (before ++ star :: after) c := by
  rcases heard_cases distinct c with same | ⟨listed, -⟩
  · exact same
  · rw [effective_listed listed]
    obtain ⟨item, member, own, zero⟩ := (weightOf_eq_some distinct).mp listed
    have inside : item ∈ after := by
      rcases List.mem_append.mp member with first | rest
      · exact absurd own (later item first)
      · rcases List.mem_cons.mp rest with rfl | last
        · exact absurd (own.symm.trans named) (name_ne_star c)
        · exact last
    obtain ⟨between, rest, rfl⟩ := List.append_of_mem inside
    rw [Distinct, List.map_append, List.map_cons, List.map_append, List.map_cons, List.nodup_append,
      List.nodup_cons, List.nodup_append, List.nodup_cons] at distinct
    rw [← List.cons_append, ← List.append_assoc, heard_split own, zero]
    refine foldl_silent 0 fun other last => ⟨fun same => ?_, fun same => ?_⟩
    · exact distinct.2.1.2.2.1.1 (own ▸ same ▸ List.mem_map_of_mem last)
    · refine distinct.2.1.1 (List.mem_append_right _ (List.mem_cons_of_mem _ ?_))
      exact named ▸ same ▸ List.mem_map_of_mem last

end Listed

section Selection

/-- The coding to choose for some qualities: of those with the highest quality the one that goes
first. -/
structure Best (build : Build) (quality : Encoding → ℚ) (c : Encoding) : Prop where
  supported : supported build c = true
  positive : 0 < quality c
  highest : ∀ d, EncodingChoice.supported build d = true →
    quality d < quality c ∨ (quality d = quality c ∧ rank d ≤ rank c)

variable {build : Build} {quality : Encoding → ℚ} {c d : Encoding}

private theorem rank_injective : Function.Injective rank := by
  intro c d same
  cases c <;> cases d <;> first | rfl | cases same

private theorem Best.unique (first : Best build quality c) (second : Best build quality d) : c = d := by
  rcases first.highest d second.supported with less | ⟨same, below⟩
  · rcases second.highest c first.supported with less' | ⟨same, -⟩
    · exact absurd less' less.asymm
    · exact absurd same less.ne'
  · rcases second.highest c first.supported with less | ⟨-, above⟩
    · exact absurd same.symm less.ne
    · exact rank_injective (le_antisymm above below)

/-- The condition of the first branch. -/
private abbrev BrotliWins (build : Build) (qs : Qualities) : Prop :=
  build.haveBrotli = true ∧ 0 < qs.brotli ∧ qs.identity ≤ qs.brotli ∧ qs.deflate ≤ qs.brotli ∧
    qs.gzip ≤ qs.brotli

/-- The condition of the second branch. -/
private abbrev DeflateWins (build : Build) (qs : Qualities) : Prop :=
  build.haveLibz = true ∧ 0 < qs.deflate ∧ qs.gzip ≤ qs.deflate ∧ qs.identity ≤ qs.deflate

/-- The condition of the third branch. -/
private abbrev GzipWins (build : Build) (qs : Qualities) : Prop :=
  build.haveLibz = true ∧ 0 < qs.gzip ∧ qs.identity ≤ qs.gzip

variable {qs : Qualities}

private theorem best_brotli (wins : BrotliWins build qs) : Best build (Qualities.of qs) .brotli := by
  obtain ⟨has, positive, identity, deflate, gzip⟩ := wins
  refine ⟨has, positive, fun d _ => ?_⟩
  have order : Qualities.of qs d ≤ qs.brotli := by
    cases d
    exacts [identity, deflate, gzip, le_refl _]
  exact (lt_or_eq_of_le order).imp_right fun same => ⟨same, by cases d <;> decide⟩

private theorem best_deflate (brotli : ¬BrotliWins build qs) (wins : DeflateWins build qs) :
    Best build (Qualities.of qs) .deflate := by
  obtain ⟨zlib, positive, gzip, identity⟩ := wins
  refine ⟨zlib, positive, fun d has => ?_⟩
  cases d with
  | identity => exact (lt_or_eq_of_le identity).imp_right fun same => ⟨same, by decide⟩
  | deflate => exact Or.inr ⟨rfl, le_refl _⟩
  | gzip => exact (lt_or_eq_of_le gzip).imp_right fun same => ⟨same, by decide⟩
  | brotli =>
      left
      change qs.brotli < qs.deflate
      by_contra above
      push Not at above
      exact brotli ⟨has, positive.trans_le above, identity.trans above, above, gzip.trans above⟩

private theorem best_gzip (brotli : ¬BrotliWins build qs) (deflate : ¬DeflateWins build qs)
    (wins : GzipWins build qs) : Best build (Qualities.of qs) .gzip := by
  obtain ⟨zlib, positive, identity⟩ := wins
  have below : qs.deflate < qs.gzip := by
    by_contra above
    push Not at above
    exact deflate ⟨zlib, positive.trans_le above, above, identity.trans above⟩
  refine ⟨zlib, positive, fun d has => ?_⟩
  cases d with
  | identity => exact (lt_or_eq_of_le identity).imp_right fun same => ⟨same, by decide⟩
  | deflate => exact Or.inl below
  | gzip => exact Or.inr ⟨rfl, le_refl _⟩
  | brotli =>
      left
      change qs.brotli < qs.gzip
      by_contra above
      push Not at above
      exact brotli ⟨has, positive.trans_le above, identity.trans above, (below.trans_le above).le, above⟩

private theorem below_identity (zlib : build.haveLibz = true) (brotli : ¬BrotliWins build qs)
    (deflate : ¬DeflateWins build qs) (gzip : ¬GzipWins build qs)
    (has : supported build d = true) (different : d ≠ .identity) :
    Qualities.of qs d < qs.identity ∨ Qualities.of qs d ≤ 0 := by
  have third : qs.gzip < qs.identity ∨ qs.gzip ≤ 0 := by
    by_contra other
    push Not at other
    exact gzip ⟨zlib, other.2, other.1⟩
  have second : qs.deflate < qs.identity ∨ qs.deflate ≤ 0 := by
    by_contra other
    push Not at other
    refine deflate ⟨zlib, other.2, ?_, other.1⟩
    rcases third with less | low
    · exact less.le.trans other.1
    · exact low.trans other.2.le
  cases d with
  | identity => exact absurd rfl different
  | deflate => exact second
  | gzip => exact third
  | brotli =>
      by_contra other
      push Not at other
      refine brotli ⟨has, other.2, other.1, ?_, ?_⟩
      · rcases second with less | low
        · exact less.le.trans other.1
        · exact low.trans other.2.le
      · rcases third with less | low
        · exact less.le.trans other.1
        · exact low.trans other.2.le

private theorem selectEncoding_cases (zlib : build.haveLibz = true) (qs : Qualities) :
    (∃ c, selectEncoding build qs = .ok c ∧ Best build (Qualities.of qs) c) ∨
      (selectEncoding build qs = .error noEncoding ∧
        ∀ c, supported build c = true → Qualities.of qs c ≤ 0) := by
  unfold selectEncoding
  by_cases brotli : BrotliWins build qs
  · rw [if_pos brotli]
    exact Or.inl ⟨.brotli, rfl, best_brotli brotli⟩
  rw [if_neg brotli]
  by_cases deflate : DeflateWins build qs
  · rw [if_pos deflate]
    exact Or.inl ⟨.deflate, rfl, best_deflate brotli deflate⟩
  rw [if_neg deflate]
  by_cases gzip : GzipWins build qs
  · rw [if_pos gzip]
    exact Or.inl ⟨.gzip, rfl, best_gzip brotli deflate gzip⟩
  rw [if_neg gzip]
  by_cases identity : 0 < qs.identity
  · rw [if_pos identity]
    refine Or.inl ⟨.identity, rfl, rfl, identity, fun d has => ?_⟩
    by_cases same : d = .identity
    · subst same
      exact Or.inr ⟨rfl, le_refl _⟩
    · left
      rcases below_identity zlib brotli deflate gzip has same with less | low
      · exact less
      · exact low.trans_lt identity
  · rw [if_neg identity]
    refine Or.inr ⟨rfl, fun d has => ?_⟩
    push Not at identity
    by_cases same : d = .identity
    · subst same
      exact identity
    · rcases below_identity zlib brotli deflate gzip has same with less | low
      · exact less.le.trans identity
      · exact low

end Selection

section Choice

variable (build : Build) (numbers : Numbers) (items : List EncodingItem)

/-- The choice follows the qualities of the header, in whatever order they are listed. -/
structure FollowsQualities : Prop where
  order : ∀ items' : List EncodingItem, items'.Perm items →
    chooseEncoding build numbers (headerText items') = chooseEncoding build numbers (headerText items)
  allowed : ∀ c, chooseEncoding build numbers (headerText items) = .ok c →
    weightOf items c.name.toList ≠ some 0
  highest : ∀ c, chooseEncoding build numbers (headerText items) = .ok c →
    supported build c = true ∧ ∀ d, supported build d = true → effective items d ≤ effective items c
  refused : (∃ message, chooseEncoding build numbers (headerText items) = .error (.notAcceptable message)) ↔
    ∀ c, supported build c = true → ¬0 < effective items c
  decided : (∃ c, chooseEncoding build numbers (headerText items) = .ok c) ∨
    ∃ message, chooseEncoding build numbers (headerText items) = .error (.notAcceptable message)

/-- No coding that is listed with the quality zero would be the best one with the quality
of `*`. -/
def ForbiddenStayBehind : Prop :=
  ∀ c w, supported build c = true → weightOf items c.name.toList = some 0 →
    weightOf items "*".toList = some w → 0 < w →
      ∃ d, supported build d = true ∧ d ≠ c ∧
        (w < effective items d ∨ (w = effective items d ∧ rank c < rank d))

variable {build numbers items}

private theorem effective_perm {items' : List EncodingItem} (distinct : Distinct items)
    (perm : items'.Perm items) (c : Encoding) : effective items' c = effective items c := by
  rw [effective, effective, weightOf_perm distinct perm, weightOf_perm distinct perm]

private theorem selectEncoding_effective (zlib : build.haveLibz = true) (distinct : Distinct items)
    (behind : ForbiddenStayBehind build items) :
    (∃ c, selectEncoding build (recordAll items ⟨0, 0, 0, 0⟩) = .ok c ∧
        Best build (effective items) c) ∨
      (selectEncoding build (recordAll items ⟨0, 0, 0, 0⟩) = .error noEncoding ∧
        ∀ c, supported build c = true → effective items c ≤ 0) := by
  have below : ∀ d, effective items d = heard d items ∨ effective items d = 0 := by
    intro d
    rcases heard_cases distinct d with same | ⟨listed, -⟩
    · exact Or.inl same.symm
    · exact Or.inr (effective_listed listed)
  rcases selectEncoding_cases zlib (recordAll items ⟨0, 0, 0, 0⟩) with ⟨c, chosen, best⟩ | ⟨none, all⟩
  · have highest : ∀ d, supported build d = true →
        heard d items < heard c items ∨ (heard d items = heard c items ∧ rank d ≤ rank c) := by
      intro d has
      rw [← of_heard, ← of_heard]
      exact best.highest d has
    have positive : 0 < heard c items := by
      rw [← of_heard]
      exact best.positive
    have own : heard c items = effective items c := by
      rcases heard_cases distinct c with same | ⟨listed, star⟩
      · exact same
      · exfalso
        obtain ⟨d, has, -, above⟩ := behind c _ best.supported listed star positive
        have higher : heard c items ≤ effective items d := by
          rcases above with more | ⟨same, -⟩
          · exact more.le
          · exact same.le
        have same : effective items d = heard d items := by
          rcases below d with same | zero
          · exact same
          · rw [zero] at higher
            exact absurd positive (not_lt.mpr higher)
        rw [same] at above
        rcases highest d has with less | ⟨equal, low⟩
        · rcases above with more | ⟨equal, -⟩
          · exact less.asymm more
          · exact less.ne' equal
        · rcases above with more | ⟨-, high⟩
          · exact more.ne' equal
          · exact absurd high (not_lt.mpr low)
    refine Or.inl ⟨c, chosen, best.supported, own ▸ positive, fun d has => ?_⟩
    rw [← own]
    rcases below d with same | zero
    · rw [same]
      exact highest d has
    · rw [zero]
      exact Or.inl positive
  · refine Or.inr ⟨none, fun d has => ?_⟩
    rcases below d with same | zero
    · rw [same, ← of_heard]
      exact all d has
    · exact zero.le

/-- Some order of the items in which a forbidden coding is heard with the quality of `*`, and the
others with their own ones. -/
private theorem exists_overwriting_order (distinct : Distinct items) {c : Encoding} {w : ℚ}
    (listed : weightOf items c.name.toList = some 0) (star : weightOf items "*".toList = some w)
    (positive : 0 < w) :
    ∃ items' : List EncodingItem, items'.Perm items ∧ heard c items' = w ∧
      ∀ d, d ≠ c → heard d items' = effective items d := by
  obtain ⟨x, member, own, zero⟩ := (weightOf_eq_some distinct).mp listed
  obtain ⟨s, member', named, quality⟩ := (weightOf_eq_some distinct).mp star
  obtain ⟨before, after, rfl⟩ := List.append_of_mem member
  have inside : s ∈ before ++ after := by
    rcases List.mem_append.mp member' with first | rest
    · exact List.mem_append_left _ first
    · rcases List.mem_cons.mp rest with rfl | last
      · exact absurd (own.symm.trans named) (name_ne_star c)
      · exact List.mem_append_right _ last
  obtain ⟨first, second, same⟩ := List.append_of_mem inside
  have perm : (x :: s :: (first ++ second)).Perm (before ++ x :: after) := by
    refine List.Perm.trans ?_ List.perm_middle.symm
    rw [same]
    exact List.Perm.cons x List.perm_middle.symm
  have distinct' : Distinct (x :: s :: (first ++ second)) :=
    (perm.map EncodingItem.coding).nodup_iff.mpr distinct
  refine ⟨_, perm, ?_, fun d other => ?_⟩
  · have unlisted : ∀ item ∈ first ++ second, item.coding ≠ c.name.toList := by
      intro item last same
      rw [Distinct, List.map_cons, List.nodup_cons, own] at distinct'
      refine distinct'.1 ?_
      rw [← same]
      exact List.mem_map_of_mem (List.mem_cons_of_mem _ last)
    have step : hear c 0 s = w := by
      rw [hear, if_neg (by rw [named]; exact (name_ne_star c).symm), if_pos named, quality]
      rfl
    have split : heard c ([] ++ x :: s :: (first ++ second)) =
        (s :: (first ++ second)).foldl (hear c) x.quality := heard_split own
    rw [List.nil_append] at split
    rw [split, zero, List.foldl_cons, step]
    exact foldl_kept positive.ne' unlisted
  · rw [← effective_perm distinct perm]
    have later : ∀ item ∈ [x], item.coding ≠ d.name.toList := by
      intro item only same
      rw [List.mem_singleton.mp only, own] at same
      revert other same
      cases c <;> cases d <;> decide
    exact (heard_after distinct' named later :
      heard d ([x] ++ s :: (first ++ second)) = effective ([x] ++ s :: (first ++ second)) d)

private theorem chooseEncoding_perm {items' : List EncodingItem} (nonempty : items ≠ [])
    (exact : ReadsExactly numbers items) (perm : items'.Perm items) :
    chooseEncoding build numbers (headerText items') =
      selectEncoding build (recordAll items' ⟨0, 0, 0, 0⟩) := by
  refine chooseEncoding_headerText numbers build ?_ fun item member => exact item (perm.subset member)
  rintro rfl
  exact nonempty perm.nil_eq.symm

private theorem stayBehind_of_follows (zlib : build.haveLibz = true) (nonempty : items ≠ [])
    (distinct : Distinct items) (exact : ReadsExactly numbers items)
    (follows : FollowsQualities build numbers items) : ForbiddenStayBehind build items := by
  intro c w has listed star positive
  by_contra behind
  push Not at behind
  obtain ⟨items', perm, own, others⟩ := exists_overwriting_order distinct listed star positive
  have best : Best build (Qualities.of (recordAll items' ⟨0, 0, 0, 0⟩)) c := by
    refine ⟨has, ?_, fun d has' => ?_⟩
    · rw [of_heard, own]
      exact positive
    · rw [of_heard, of_heard, own]
      by_cases same : d = c
      · subst same
        exact Or.inr ⟨own, le_refl _⟩
      · obtain ⟨low, tie⟩ := behind d has' same
        rw [others d same]
        exact (lt_or_eq_of_le low).imp_right fun equal => ⟨equal, tie equal.symm⟩
  have chosen : selectEncoding build (recordAll items' ⟨0, 0, 0, 0⟩) = .ok c := by
    rcases selectEncoding_cases zlib (recordAll items' ⟨0, 0, 0, 0⟩) with ⟨d, chosen, best'⟩ | ⟨-, all⟩
    · rw [chosen, best.unique best']
    · exact absurd best.positive (not_lt.mpr (all c has))
  refine follows.allowed c ?_ listed
  rw [← follows.order items' perm, chooseEncoding_perm nonempty exact perm, chosen]

private theorem selectEncoding_perm {items' : List EncodingItem} (zlib : build.haveLibz = true)
    (distinct : Distinct items) (behind : ForbiddenStayBehind build items) (perm : items'.Perm items) :
    (∃ c, selectEncoding build (recordAll items' ⟨0, 0, 0, 0⟩) = .ok c ∧
        Best build (effective items) c) ∨
      (selectEncoding build (recordAll items' ⟨0, 0, 0, 0⟩) = .error noEncoding ∧
        ∀ c, supported build c = true → effective items c ≤ 0) := by
  have weights := weightOf_perm distinct perm
  have effects : effective items' = effective items := funext (effective_perm distinct perm)
  rw [← effects]
  refine selectEncoding_effective zlib ((perm.map EncodingItem.coding).nodup_iff.mpr distinct) ?_
  unfold ForbiddenStayBehind
  simp only [weights, effects]
  exact behind

private theorem follows_of_chosen {c : Encoding} (best : Best build (effective items) c)
    (chosen : ∀ items' : List EncodingItem, items'.Perm items →
      chooseEncoding build numbers (headerText items') = .ok c) :
    FollowsQualities build numbers items := by
  have own := chosen items (List.Perm.refl _)
  refine ⟨fun items' perm => (chosen items' perm).trans own.symm, fun d again => ?_, fun d again => ?_, ?_,
    Or.inl ⟨c, own⟩⟩
  · obtain rfl : c = d := Except.ok.inj (own.symm.trans again)
    intro zero
    have positive := best.positive
    rw [effective_listed zero] at positive
    exact lt_irrefl _ positive
  · obtain rfl : c = d := Except.ok.inj (own.symm.trans again)
    refine ⟨best.supported, fun d has => ?_⟩
    rcases best.highest d has with less | ⟨equal, -⟩
    · exact less.le
    · exact equal.le
  · constructor
    · rintro ⟨message, failed⟩
      rw [own] at failed
      cases failed
    · exact fun all => absurd best.positive (all c best.supported)

private theorem follows_of_refused (none : ∀ c, supported build c = true → effective items c ≤ 0)
    (refused : ∀ items' : List EncodingItem, items'.Perm items →
      chooseEncoding build numbers (headerText items') = .error noEncoding) :
    FollowsQualities build numbers items := by
  have own := refused items (List.Perm.refl _)
  refine ⟨fun items' perm => (refused items' perm).trans own.symm, fun d again => ?_, fun d again => ?_, ?_,
    Or.inr ⟨_, own⟩⟩
  · rw [own] at again
    cases again
  · rw [own] at again
    cases again
  · exact iff_of_true ⟨_, own⟩ fun c has => not_lt.mpr (none c has)

/-- The choice follows the header exactly when no forbidden coding would win with the quality
of `*`. -/
theorem followsQualities_iff (zlib : build.haveLibz = true) (nonempty : items ≠ [])
    (distinct : Distinct items) (exact : ReadsExactly numbers items) :
    FollowsQualities build numbers items ↔ ForbiddenStayBehind build items := by
  constructor
  · exact stayBehind_of_follows zlib nonempty distinct exact
  · intro behind
    rcases selectEncoding_perm zlib distinct behind (List.Perm.refl _) with ⟨c, -, best⟩ | ⟨-, none⟩
    · refine follows_of_chosen best fun items' perm => ?_
      rw [chooseEncoding_perm nonempty exact perm]
      rcases selectEncoding_perm zlib distinct behind perm with ⟨d, chosen, best'⟩ | ⟨-, all⟩
      · rw [chosen, best.unique best']
      · exact absurd best.positive (not_lt.mpr (all c best.supported))
    · refine follows_of_refused none fun items' perm => ?_
      rw [chooseEncoding_perm nonempty exact perm]
      rcases selectEncoding_perm zlib distinct behind perm with ⟨d, -, best'⟩ | ⟨refused, -⟩
      · exact absurd best'.positive (not_lt.mpr (none d best'.supported))
      · exact refused

def sampleItem (coding : String) (named : coding.toList ≠ [])
    (plain : ',' ∉ coding.toList ∧ ';' ∉ coding.toList) : EncodingItem :=
  ⟨coding.toList, none, named, plain⟩

def sampleForbidden (coding : String) (named : coding.toList ≠ [])
    (plain : ',' ∉ coding.toList ∧ ';' ∉ coding.toList) : EncodingItem :=
  ⟨coding.toList, some ⟨⟨"0".toList, none, by decide, List.all_eq_true.mp rfl⟩, by decide +kernel⟩, named, plain⟩

private theorem readsExactly_decimals (items : List EncodingItem) :
    ReadsExactly decimalNumbers items := fun _ _ w _ => readDecimal_text w.toDecimal

/-- With `deflate` allowed by `*`, a forbidden `identity` stays behind. -/
theorem followsQualities_sampleForbidden : FollowsQualities ⟨false, true⟩ decimalNumbers
    [sampleForbidden "identity" (by decide) (by decide), sampleItem "*" (by decide) (by decide)] :=
  (followsQualities_iff rfl (by simp) (by unfold Distinct; decide) (readsExactly_decimals _)).mpr (by
    intro c w _ zero star _
    obtain rfl : (1 : ℚ) = w := Option.some.inj (Eq.trans (by decide +kernel) star)
    cases c with
    | identity => exact ⟨.gzip, rfl, by decide, Or.inr ⟨by decide +kernel, by decide⟩⟩
    | deflate => exact absurd zero (by decide +kernel)
    | gzip => exact absurd zero (by decide +kernel)
    | brotli => exact absurd zero (by decide +kernel))

/-- The header `deflate;q=0, *`. -/
theorem not_followsQualities_sampleForbidden :
    ¬∀ (build : Build) (numbers : Numbers) (items : List EncodingItem), build.haveLibz = true →
      items ≠ [] → Distinct items → ReadsExactly numbers items →
        FollowsQualities build numbers items := by
  intro all
  have follows := all ⟨false, true⟩ decimalNumbers
    [sampleForbidden "deflate" (by decide) (by decide), sampleItem "*" (by decide) (by decide)]
    rfl (by simp) (by unfold Distinct; decide) (readsExactly_decimals _)
  exact follows.allowed .deflate (by decide +kernel) (by decide +kernel)

end Choice

section Failures

variable (build : Build) (numbers : Numbers) (header : Text)

/-- A coding, or an error of the client. -/
def Answers (result : Except Exception Encoding) : Prop :=
  (∃ c, result = .ok c) ∨
    ∃ code message, result = .error (.http code message) ∧ 400 ≤ code ∧ code < 500

/-- `stof` converts what stands behind the quality sign of every item that has one such sign. -/
def QualitiesConvert : Prop :=
  ∀ item ∈ splitText header ", ".toList, ∀ name value,
    splitText item ";q=".toList = [name, value] → numbers.stof value ≠ none

variable {build numbers header}

private theorem encodingItem_cases (numbers : Numbers) (item : Text) :
    (∃ name value, splitText item ";q=".toList = [name, value] ∧ numbers.stof value = none ∧
        encodingItem numbers item = .error (.std "stof")) ∨
      ((∀ name value, splitText item ";q=".toList = [name, value] → numbers.stof value ≠ none) ∧
        ∃ parsed, encodingItem numbers item = .ok parsed) := by
  unfold encodingItem
  generalize splitText item ";q=".toList = parts
  match parts with
  | [] => exact Or.inr ⟨nofun, _, rfl⟩
  | [name] => exact Or.inr ⟨nofun, _, rfl⟩
  | [name, value] =>
      cases converted : numbers.stof value with
      | none =>
          refine Or.inl ⟨name, value, rfl, converted, ?_⟩
          dsimp only
          rw [converted]
      | some number =>
          refine Or.inr ⟨fun name' value' pair => ?_, ?_⟩
          · cases pair
            rw [converted]
            exact Option.some_ne_none number
          · dsimp only
            rw [converted]
            cases number with
            | none => exact ⟨_, rfl⟩
            | some q =>
                dsimp only
                split
                · exact ⟨_, rfl⟩
                · exact ⟨_, rfl⟩
  | _ :: _ :: _ :: _ => exact Or.inr ⟨nofun, _, rfl⟩

private theorem selectEncoding_answers (build : Build) (qs : Qualities) :
    Answers (selectEncoding build qs) := by
  unfold selectEncoding
  split_ifs
  · exact Or.inl ⟨_, rfl⟩
  · exact Or.inl ⟨_, rfl⟩
  · exact Or.inl ⟨_, rfl⟩
  · exact Or.inl ⟨_, rfl⟩
  · exact Or.inr ⟨406, _, rfl, by decide, by decide⟩

/-- The loop over the items, which stops at the first quality that cannot be converted. -/
private theorem foldlM_cases (numbers : Numbers) (items : List Text) (qs : Qualities) :
    let loop := items.foldlM (fun qs item => do
      let (name, quality) ← encodingItem numbers item
      Except.ok (Qualities.record qs name quality)) qs
    ((∃ qs', loop = .ok qs') ∧ ∀ item ∈ items, ∀ name value,
        splitText item ";q=".toList = [name, value] → numbers.stof value ≠ none) ∨
      (loop = .error (.std "stof") ∧ ∃ item ∈ items, ∃ name value,
        splitText item ";q=".toList = [name, value] ∧ numbers.stof value = none) := by
  induction items generalizing qs with
  | nil => exact Or.inl ⟨⟨qs, rfl⟩, fun item member => absurd member List.not_mem_nil⟩
  | cons item items ih =>
      dsimp only
      rw [List.foldlM_cons]
      rcases encodingItem_cases numbers item with ⟨name, value, pair, converted, failed⟩ | ⟨head, parsed, done⟩
      · rw [failed]
        exact Or.inr ⟨rfl, item, List.mem_cons_self, name, value, pair, converted⟩
      · rw [done]
        rcases ih (qs.record parsed.1 parsed.2) with ⟨all, rest⟩ | ⟨failed, other, member, bad⟩
        · refine Or.inl ⟨all, fun other member => ?_⟩
          rcases List.mem_cons.mp member with rfl | later
          · exact head
          · exact rest other later
        · exact Or.inr ⟨failed, other, List.mem_cons_of_mem _ member, bad⟩

/-- Only a quality that cannot be converted makes the choice fail with something else. -/
theorem chooseEncoding_answers_iff (build : Build) (numbers : Numbers) (header : Text) :
    Answers (chooseEncoding build numbers header) ↔ QualitiesConvert numbers header := by
  unfold QualitiesConvert
  have whole : splitText header ", ".toList = [] → ∀ qs : Qualities,
      ["*".toList].foldlM (fun qs item => do
        let (name, quality) ← encodingItem numbers item
        Except.ok (Qualities.record qs name quality)) qs = .ok (qs.record "*".toList 1) :=
    fun _ _ => rfl
  have choice : ∀ loop : Except Exception Qualities,
      loop = (if splitText header ", ".toList = [] then ["*".toList] else
        splitText header ", ".toList).foldlM (fun qs item => do
          let (name, quality) ← encodingItem numbers item
          Except.ok (Qualities.record qs name quality)) ⟨0, 0, 0, 0⟩ →
      chooseEncoding build numbers header = loop >>= selectEncoding build := by
    rintro loop rfl
    rfl
  by_cases empty : splitText header ", ".toList = []
  · rw [choice (.ok _) (by rw [if_pos empty, whole empty]), empty]
    exact iff_of_true (selectEncoding_answers build _) fun item member => absurd member List.not_mem_nil
  · rcases foldlM_cases numbers (splitText header ", ".toList) ⟨0, 0, 0, 0⟩ with
      ⟨⟨qs, done⟩, converts⟩ | ⟨failed, item, member, name, value, pair, none⟩
    · rw [choice (.ok qs) (by rw [if_neg empty, done])]
      exact iff_of_true (selectEncoding_answers build qs) converts
    · rw [choice (.error (.std "stof")) (by rw [if_neg empty, failed])]
      refine iff_of_false ?_ fun converts => converts item member name value pair none
      rintro (⟨c, done⟩ | ⟨code, message, thrown, -⟩)
      · cases done
      · cases thrown

/-- A quality that is no number. -/
theorem not_answers_sampleWord :
    ¬∀ (build : Build) (numbers : Numbers) (header : Text),
      Answers (chooseEncoding build numbers header) := by
  intro all
  rcases all ⟨false, true⟩ decimalNumbers "gzip;q=high".toList with ⟨c, done⟩ | ⟨code, message, thrown, -⟩
  · revert done
    have failed : chooseEncoding ⟨false, true⟩ decimalNumbers "gzip;q=high".toList =
        .error (.std "stof") := by decide +kernel
    rw [failed]
    exact nofun
  · revert thrown
    have failed : chooseEncoding ⟨false, true⟩ decimalNumbers "gzip;q=high".toList =
        .error (.std "stof") := by decide +kernel
    rw [failed]
    exact nofun

end Failures

end Cgimap.Http.EncodingChoice
