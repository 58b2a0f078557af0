/- path: Cgimap/Library/GuardedReferences
   generality: G
   source: none
   digest: Transactions that lock what they refer to, and what they hide, leave no dangling
     reference. -/

import Cgimap.Library.Interleaving

set_option autoImplicit false
set_option relaxedAutoImplicit false

namespace Cgimap.Library.GuardedReferences

open Cgimap.Library.StatementProgram
open Cgimap.Library.Interleaving

variable {S L : Type}

/-- Which rows of a store are shown, and which row refers to which. -/
structure Reading (S L : Type) where
  shows : S → L → Prop
  refers : S → L → L → Prop

namespace Reading

variable (R : Reading S L)

/-- What is referred to is shown. -/
def Intact (s : S) : Prop := ∀ o x, R.refers s o x → R.shows s x

/-- Two stores that read the same. -/
structure Same (s s' : S) : Prop where
  shows : ∀ x, R.shows s x ↔ R.shows s' x
  refers : ∀ o x, R.refers s o x ↔ R.refers s' o x

/-- A transaction reads the rows it owns in its own store, and the other ones in the
committed store. -/
structure Respects (V : Views S L) : Prop where
  shows : ∀ owned mine base x, R.shows (V.overlay owned mine base) x ↔
    R.shows (if owned x then mine else base) x
  refers : ∀ owned mine base o x, R.refers (V.overlay owned mine base) o x ↔
    R.refers (if owned o then mine else base) o x
  sync : ∀ base s, R.Same base (V.sync base s)

variable {R}

theorem Same.refl (s : S) : R.Same s s := ⟨fun _ => Iff.rfl, fun _ _ => Iff.rfl⟩

theorem Same.intact {s s' : S} (same : R.Same s s') (intact : R.Intact s) : R.Intact s' :=
  fun o x refers => (same.shows x).mp (intact o x ((same.refers o x).mpr refers))

end Reading

/-- What a transaction has found out: the rows that it owns, rows it has locked that are
shown, and rows of its own that some other row does not refer to. -/
structure Known (L : Type) where
  own : L → Prop
  shown : L → Prop
  free : L → L → Prop

namespace Known

def nothing : Known L := ⟨fun _ => False, fun _ => False, fun _ _ => False⟩

def withOwn (f : Known L) (p : L → Prop) : Known L := { f with own := fun x => f.own x ∨ p x }

def withShown (f : Known L) (p : L → Prop) : Known L :=
  { f with shown := fun x => f.shown x ∨ p x }

def withFree (f : Known L) (p : L → L → Prop) : Known L :=
  { f with free := fun x o => f.free x o ∨ p x o }

/-- What stays known whatever the transaction writes. -/
def owned (f : Known L) : Known L := ⟨f.own, fun _ => False, fun _ _ => False⟩

/-- All of `f` is known in `g`. -/
structure Sub (f g : Known L) : Prop where
  own : ∀ x, f.own x → g.own x
  shown : ∀ x, f.shown x → g.shown x
  free : ∀ x o, f.free x o → g.free x o

theorem Sub.refl (f : Known L) : f.Sub f := ⟨fun _ h => h, fun _ h => h, fun _ _ h => h⟩

theorem Sub.trans {f g h : Known L} (first : f.Sub g) (second : g.Sub h) : f.Sub h :=
  ⟨fun x known => second.own x (first.own x known),
    fun x known => second.shown x (first.shown x known),
    fun x o known => second.free x o (first.free x o known)⟩

theorem nothing_sub (f : Known L) : nothing.Sub f := ⟨nofun, nofun, nofun⟩

theorem owned_sub (f : Known L) : f.owned.Sub f := ⟨fun _ h => h, nofun, nofun⟩

theorem sub_withShown (f : Known L) (p : L → Prop) : f.Sub (f.withShown p) :=
  ⟨fun _ h => h, fun _ => .inl, fun _ _ h => h⟩

theorem sub_withFree (f : Known L) (p : L → L → Prop) : f.Sub (f.withFree p) :=
  ⟨fun _ h => h, fun _ h => h, fun _ _ => .inl⟩

theorem withOwn_sub {f g : Known L} {p : L → Prop} (sub : f.Sub g) (own : ∀ x, p x → g.own x) :
    (f.withOwn p).Sub g :=
  ⟨fun x known => known.elim (sub.own x) (own x), sub.shown, sub.free⟩

theorem withShown_sub {f g : Known L} {p : L → Prop} (sub : f.Sub g)
    (shown : ∀ x, p x → g.shown x) : (f.withShown p).Sub g :=
  ⟨sub.own, fun x known => known.elim (sub.shown x) (shown x), sub.free⟩

/-- What is known is true of the store that is seen and the locks that are held. -/
structure Hold (R : Reading S L) (f : Known L) (s : S) (locks : List (L × LockMode)) : Prop where
  own : ∀ x, f.own x → (x, .exclusive) ∈ locks
  shown : ∀ x, f.shown x → R.shows s x ∧ ∃ m, (x, m) ∈ locks
  free : ∀ x o, f.free x o → (x, .exclusive) ∈ locks ∧ ¬ R.refers s o x

variable {R : Reading S L} {f g : Known L} {s s' : S} {locks : List (L × LockMode)}

theorem hold_nothing (s : S) (locks : List (L × LockMode)) : Hold R nothing s locks :=
  ⟨nofun, nofun, nofun⟩

theorem Hold.sub (hold : Hold R g s locks) (sub : f.Sub g) : Hold R f s locks :=
  ⟨fun x known => hold.own x (sub.own x known), fun x known => hold.shown x (sub.shown x known),
    fun x o known => hold.free x o (sub.free x o known)⟩

theorem Hold.keep (hold : Hold R f s locks) (more : List (L × LockMode))
    (shows : ∀ x, R.shows s x → R.shows s' x) (refers : ∀ o x, R.refers s' o x → R.refers s o x) :
    Hold R f s' (locks ++ more) := by
  refine ⟨fun x known => List.mem_append_left _ (hold.own x known), fun x known => ?_,
    fun x o known => ?_⟩
  · obtain ⟨shown, m, held⟩ := hold.shown x known
    exact ⟨shows x shown, m, List.mem_append_left _ held⟩
  · obtain ⟨held, absent⟩ := hold.free x o known
    exact ⟨List.mem_append_left _ held, fun present => absent (refers o x present)⟩

theorem Hold.owned (hold : Hold R f s locks) (s' : S) (more : List (L × LockMode)) :
    Hold R f.owned s' (locks ++ more) :=
  ⟨fun x known => List.mem_append_left _ (hold.own x known), nofun, nofun⟩

theorem Hold.withOwn (hold : Hold R f s locks) {p : L → Prop}
    (held : ∀ x, p x → (x, .exclusive) ∈ locks) : Hold R (f.withOwn p) s locks :=
  ⟨fun x known => known.elim (hold.own x) (held x), hold.shown, hold.free⟩

theorem Hold.withShown (hold : Hold R f s locks) {p : L → Prop}
    (held : ∀ x, p x → R.shows s x ∧ ∃ m, (x, m) ∈ locks) : Hold R (f.withShown p) s locks :=
  ⟨hold.own, fun x known => known.elim (hold.shown x) (held x), hold.free⟩

theorem Hold.withFree (hold : Hold R f s locks) {p : L → L → Prop}
    (held : ∀ x o, p x o → (x, .exclusive) ∈ locks ∧ ¬ R.refers s o x) :
    Hold R (f.withFree p) s locks :=
  ⟨hold.own, hold.shown, fun x o known => known.elim (hold.free x o) (held x o)⟩

end Known

/-- What a statement may change, with the locks that are held when it is done: rows of its
own only, no row that may be referred to is hidden, and what is referred to anew is known
to be shown. -/
structure Allowed (R : Reading S L) (f : Known L) (s s' : S) (locks : List (L × LockMode)) :
    Prop where
  shows : ∀ x, (x, LockMode.exclusive) ∉ locks → (R.shows s x ↔ R.shows s' x)
  refers : ∀ o x, (o, LockMode.exclusive) ∉ locks → (R.refers s o x ↔ R.refers s' o x)
  hides : ∀ x, R.shows s x → ¬ R.shows s' x → ∀ o, f.free x o
  adds : ∀ o x, R.refers s' o x → ¬ R.refers s o x → f.shown x ∧ R.shows s' x

section Programs

variable {ε α β : Type} {R : Reading S L} {f g : Known L} {s s' : S}
  {locks : List (L × LockMode)}

theorem Allowed.of_same (same : R.Same s s') : Allowed R f s s' locks :=
  ⟨fun x _ => same.shows x, fun o x _ => same.refers o x,
    fun x shown hidden => absurd ((same.shows x).mp shown) hidden,
    fun o x present absent => absurd ((same.refers o x).mpr present) absent⟩

theorem Allowed.sub (allowed : Allowed R f s s' locks) (sub : f.Sub g) : Allowed R g s s' locks :=
  ⟨allowed.shows, allowed.refers, fun x shown hidden o => sub.free x o (allowed.hides x shown hidden o),
    fun o x present absent => (allowed.adds o x present absent).imp_left (sub.shown x)⟩

private theorem intact_of_allowed {held : List (L × LockMode)}
    (intact : R.Intact s) (hold : f.Hold R s held) (allowed : Allowed R f s s' locks) :
    R.Intact s' := by
  intro o x present
  by_cases before : R.refers s o x
  · by_contra hidden
    exact (hold.free x o (allowed.hides x (intact o x before) hidden o)).2 before
  · exact (allowed.adds o x present before).2

variable (R) in
/-- A program that changes what is allowed with what it knows, whatever the other parties
do between its statements. It returns with something known. -/
def Careful (Q : α → Known L → Prop) : Prog S L ε α → Known L → Prop
  | .ret a, f => ∃ g : Known L, g.Sub f ∧ Q a g
  | .fail _, _ => True
  | .stmt st k, f => ∀ s locks r s', f.Hold R s locks → R.Intact s → st.exec s = .ok (r, s') →
      Allowed R f s s' (locks ++ st.locks s) ∧
        ∃ g : Known L, g.Hold R s' (locks ++ st.locks s) ∧ Careful Q (k r) g

variable {Q Q' : α → Known L → Prop} {p : Prog S L ε α}

theorem careful_pure {a : α} (done : Q a f) : Careful R Q (pure a : Prog S L ε α) f :=
  ⟨f, .refl f, done⟩

theorem careful_throw (e : ε) : Careful R Q (throw e : Prog S L ε α) f := trivial

theorem Careful.sub (careful : Careful R Q p f) (sub : f.Sub g) : Careful R Q p g := by
  cases p with
  | ret a =>
      obtain ⟨h, below, done⟩ := careful
      exact ⟨h, below.trans sub, done⟩
  | fail e => trivial
  | stmt st k =>
      intro s locks r s' hold intact done
      obtain ⟨allowed, rest⟩ := careful s locks r s' (hold.sub sub) intact done
      exact ⟨allowed.sub sub, rest⟩

theorem careful_bind {Q : α → Known L → Prop} {Q' : β → Known L → Prop} {k : α → Prog S L ε β}
    (first : Careful R Q p f) (rest : ∀ a g, Q a g → Careful R Q' (k a) g) :
    Careful R Q' (p >>= k) f := by
  induction p generalizing f with
  | ret a =>
      obtain ⟨g, below, done⟩ := first
      exact (rest a g done).sub below
  | fail e => trivial
  | stmt st k' ih =>
      intro s locks r s' hold intact done
      obtain ⟨allowed, g, held, after⟩ := first s locks r s' hold intact done
      exact ⟨allowed, g, held, ih r after⟩

/-- Something weaker that follows from what is known at the end. -/
theorem Careful.mono (careful : Careful R Q p f)
    (weaker : ∀ a g, Q a g → ∃ h : Known L, h.Sub g ∧ Q' a h) : Careful R Q' p f := by
  rw [← bind_pure p]
  exact careful_bind careful weaker

theorem careful_perform {st : Stmt S L ε α}
    (step : ∀ s locks r s', f.Hold R s locks → R.Intact s → st.exec s = .ok (r, s') →
      Allowed R f s s' (locks ++ st.locks s) ∧
        ∃ g : Known L, g.Hold R s' (locks ++ st.locks s) ∧ Q r g) :
    Careful R Q (Prog.perform st) f := by
  intro s locks r s' hold intact done
  obtain ⟨allowed, g, held, after⟩ := step s locks r s' hold intact done
  exact ⟨allowed, g, held, g, .refl g, after⟩

theorem careful_query {query : S → α}
    (learn : ∀ s locks, f.Hold R s locks → ∃ g : Known L, g.Hold R s locks ∧ Q (query s) g) :
    Careful R Q (Prog.perform (Stmt.query query : Stmt S L ε α)) f := by
  refine careful_perform fun s locks r s' hold _ done => ?_
  obtain ⟨rfl, rfl⟩ := Prod.mk.inj (Except.ok.inj done)
  obtain ⟨g, held, after⟩ := learn s locks hold
  refine ⟨.of_same (.refl s), g, ?_, after⟩
  rw [show (Stmt.query query : Stmt S L ε α).locks s = [] from rfl, List.append_nil]
  exact held

theorem careful_liftExcept_bind {x : Except ε α} {Q : β → Known L → Prop} {k : α → Prog S L ε β}
    (rest : ∀ a, x = .ok a → Careful R Q (k a) f) :
    Careful R Q (Prog.liftExcept x >>= k) f := by
  cases x with
  | ok a => exact rest a rfl
  | error e => trivial

theorem careful_foldlM {ι : Type} {step : β → ι → Prog S L ε β} {I : β → Prop} (l : List ι)
    (keeps : ∀ b, ∀ i ∈ l, I b → Careful R (fun b' g => I b' ∧ g = f) (step b i) f) {b : β}
    (start : I b) : Careful R (fun b' g => I b' ∧ g = f) (l.foldlM step b) f := by
  induction l generalizing b with
  | nil => exact careful_pure ⟨start, rfl⟩
  | cons i l ih =>
      rw [List.foldlM_cons]
      refine careful_bind (keeps b i List.mem_cons_self start) ?_
      rintro b' g ⟨next, rfl⟩
      exact ih (fun b j member => keeps b j (List.mem_cons_of_mem i member)) next

section Quiet

variable (R) in
/-- A program that changes nothing of what is read. -/
def Quiet : Prog S L ε α → Prop
  | .ret _ => True
  | .fail _ => True
  | .stmt st k => (∀ s r s', st.exec s = .ok (r, s') → R.Same s s') ∧ ∀ r, Quiet (k r)

theorem quiet_pure (a : α) : Quiet R (pure a : Prog S L ε α) := trivial

theorem quiet_throw (e : ε) : Quiet R (throw e : Prog S L ε α) := trivial

theorem quiet_perform {st : Stmt S L ε α}
    (same : ∀ s r s', st.exec s = .ok (r, s') → R.Same s s') : Quiet R (Prog.perform st) :=
  ⟨same, fun _ => trivial⟩

theorem quiet_query (query : S → α) :
    Quiet R (Prog.perform (Stmt.query query : Stmt S L ε α)) := by
  refine quiet_perform fun s r s' done => ?_
  obtain ⟨-, rfl⟩ := Prod.mk.inj (Except.ok.inj done)
  exact .refl s

theorem quiet_liftExcept (x : Except ε α) : Quiet R (Prog.liftExcept x : Prog S L ε α) := by
  cases x with
  | ok a => trivial
  | error e => trivial

theorem quiet_bind {k : α → Prog S L ε β} (first : Quiet R p) (rest : ∀ a, Quiet R (k a)) :
    Quiet R (p >>= k) := by
  induction p with
  | ret a => exact rest a
  | fail e => trivial
  | stmt st k' ih => exact ⟨first.1, fun r => ih r (first.2 r)⟩

theorem quiet_of_readOnly {P : α → Prop} (reads : p.ReadOnly P) : Quiet R p := by
  induction p with
  | ret a => trivial
  | fail e => trivial
  | stmt st k ih =>
      refine ⟨fun s r s' done => ?_, fun r => ih r (reads.2 r)⟩
      rw [reads.1 s r s' done]
      exact .refl s

theorem Quiet.careful (quiet : Quiet R p) (f : Known L) : Careful R (fun _ g => g = f) p f := by
  induction p with
  | ret a => exact careful_pure rfl
  | fail e => trivial
  | stmt st k ih =>
      intro s locks r s' hold _ done
      have same := quiet.1 s r s' done
      refine ⟨.of_same same, f, hold.keep _ (fun x => (same.shows x).mp)
        (fun o x => (same.refers o x).mpr), ih r (quiet.2 r)⟩

theorem Quiet.careful_bind {Q : β → Known L → Prop} {k : α → Prog S L ε β} (quiet : Quiet R p)
    (rest : ∀ a, Careful R Q (k a) f) : Careful R Q (p >>= k) f := by
  refine GuardedReferences.careful_bind (quiet.careful f) ?_
  rintro a g rfl
  exact rest a

end Quiet

end Programs

section Worlds

variable {I ε α : Type} [DecidableEq I] [DecidableEq L] {R : Reading S L} {V : Views S L}

private theorem not_owned {t : Txn S L ε α} {x : L} (foreign : (x, LockMode.exclusive) ∉ t.locks) :
    t.owns x = false := decide_eq_false foreign

private theorem owned {t : Txn S L ε α} {x : L} (own : (x, LockMode.exclusive) ∈ t.locks) :
    t.owns x = true := decide_eq_true own

theorem shows_view (respects : R.Respects V) (t : Txn S L ε α) (base : S) (x : L) :
    R.shows (t.view V base) x ↔ R.shows (if t.owns x then t.mine else base) x :=
  respects.shows t.owns t.mine base x

theorem refers_view (respects : R.Respects V) (t : Txn S L ε α) (base : S) (o x : L) :
    R.refers (t.view V base) o x ↔ R.refers (if t.owns o then t.mine else base) o x :=
  respects.refers t.owns t.mine base o x

/-- The invariant of a running transaction: the rest of its program is careful with what is
known, the store it sees is intact, and it has locked the target of each reference of its
own rows that is not committed. -/
structure Guarded (R : Reading S L) (V : Views S L) (base : S) (t : Txn S L ε α) : Prop where
  careful : ∃ f : Known L, Careful R (fun _ _ => True) t.prog f ∧
    f.Hold R (t.view V base) t.locks
  intact : R.Intact (t.view V base)
  covered : ∀ o x, t.owns o = true → R.refers t.mine o x →
    (∃ m, (x, m) ∈ t.locks) ∨ R.refers base o x

/-- The committed store is intact, and every transaction guards its references. -/
structure Sound (R : Reading S L) (V : Views S L) (w : World I S L ε α) : Prop where
  intact : R.Intact w.base
  guarded : ∀ i t, w.status i = .running t → Guarded R V w.base t

section Steps

variable {base base' : S} {t t' : Txn S L ε α}

private theorem guarded_start (respects : R.Respects V) (intact : R.Intact base) {p : Prog S L ε α}
    (careful : Careful R (fun _ _ => True) p .nothing) : Guarded R V base ⟨p, base, []⟩ := by
  refine ⟨⟨.nothing, careful, Known.hold_nothing _ _⟩, fun o x refers => ?_, fun o x own => ?_⟩
  · rw [refers_view respects] at refers
    rw [shows_view respects]
    exact intact o x refers
  · cases own

private theorem guarded_congr (respects : R.Respects V) (same : R.Same base base')
    (guarded : Guarded R V base t) : Guarded R V base' t := by
  have shows : ∀ x, R.shows (t.view V base) x ↔ R.shows (t.view V base') x := by
    intro x
    rw [shows_view respects, shows_view respects]
    split
    · rfl
    · exact same.shows x
  have refers : ∀ o x, R.refers (t.view V base) o x ↔ R.refers (t.view V base') o x := by
    intro o x
    rw [refers_view respects, refers_view respects]
    split
    · rfl
    · exact same.refers o x
  obtain ⟨f, careful, hold⟩ := guarded.careful
  refine ⟨⟨f, careful, hold.own, fun x known => (hold.shown x known).imp_left (shows x).mp,
      fun x o known => (hold.free x o known).imp_right fun absent present =>
        absent ((refers o x).mpr present)⟩,
    Reading.Same.intact ⟨shows, refers⟩ guarded.intact, fun o x own present => ?_⟩
  exact (guarded.covered o x own present).imp_right (same.refers o x).mp

/-- After a statement the transaction sees what the statement has made of the store. -/
private theorem same_next (respects : R.Respects V) {ρ : Type} {st : Stmt S L ε ρ}
    (rest : Prog S L ε α) {s' : S} {f : Known L}
    (allowed : Allowed R f (t.view V base) s' (t.locks ++ st.locks (t.view V base))) :
    R.Same s' ((t.next V base st rest s').view V (V.sync base s')) := by
  have locks : (t.next V base st rest s').locks = t.locks ++ st.locks (t.view V base) := rfl
  have mine : (t.next V base st rest s').mine = s' := rfl
  have sync := respects.sync base s'
  constructor
  · intro x
    rw [shows_view respects, mine]
    by_cases own : (x, LockMode.exclusive) ∈ (t.next V base st rest s').locks
    · rw [owned own, if_pos rfl]
    · have before : (x, LockMode.exclusive) ∉ t.locks := fun held =>
        own (List.mem_append_left _ held)
      rw [not_owned own, if_neg Bool.false_ne_true, ← allowed.shows x own, shows_view respects,
        not_owned before, if_neg Bool.false_ne_true, sync.shows]
  · intro o x
    rw [refers_view respects, mine]
    by_cases own : (o, LockMode.exclusive) ∈ (t.next V base st rest s').locks
    · rw [owned own, if_pos rfl]
    · have before : (o, LockMode.exclusive) ∉ t.locks := fun held =>
        own (List.mem_append_left _ held)
      rw [not_owned own, if_neg Bool.false_ne_true, ← allowed.refers o x own, refers_view respects,
        not_owned before, if_neg Bool.false_ne_true, sync.refers]

private theorem guarded_next (respects : R.Respects V) (guarded : Guarded R V base t) {ρ : Type}
    {st : Stmt S L ε ρ} {k : ρ → Prog S L ε α} {r : ρ} {s' : S} (next : t.prog = .stmt st k)
    (done : st.exec (t.view V base) = .ok (r, s')) :
    Guarded R V (V.sync base s') (t.next V base st (k r) s') := by
  obtain ⟨f, careful, hold⟩ := guarded.careful
  rw [next] at careful
  obtain ⟨allowed, g, held, rest⟩ := careful _ _ r s' hold guarded.intact done
  have same := same_next respects (k r) allowed
  refine ⟨⟨g, rest, held.own, fun x known => (held.shown x known).imp_left (same.shows x).mp,
      fun x o known => (held.free x o known).imp_right fun absent present =>
        absent ((same.refers o x).mpr present)⟩,
    same.intact (intact_of_allowed guarded.intact hold allowed), fun o x own present => ?_⟩
  by_cases before : R.refers (t.view V base) o x
  · rw [refers_view respects] at before
    cases earlier : t.owns o with
    | true =>
        rw [earlier, if_pos rfl] at before
        rcases guarded.covered o x earlier before with ⟨m, locked⟩ | committed
        · exact .inl ⟨m, List.mem_append_left _ locked⟩
        · exact .inr (((respects.sync base s').refers o x).mp committed)
    | false =>
        rw [earlier, if_neg Bool.false_ne_true] at before
        exact .inr (((respects.sync base s').refers o x).mp before)
  · obtain ⟨known, -⟩ := allowed.adds o x present before
    obtain ⟨-, m, locked⟩ := hold.shown x known
    exact .inl ⟨m, List.mem_append_left _ locked⟩

end Steps

section Commits

variable {base : S} {t t' : Txn S L ε α}

private theorem foreign_of_locked (apart : ∀ x ∈ t.locks, ∀ y ∈ t'.locks, Compatible x y) {x : L}
    {m : LockMode} (locked : (x, m) ∈ t.locks) : t'.owns x = false := by
  refine not_owned fun own => ?_
  have modes := (apart _ locked _ own rfl).2
  cases modes

private theorem unlocked_of_owned (apart : ∀ x ∈ t.locks, ∀ y ∈ t'.locks, Compatible x y) {x : L}
    (own : t.owns x = true) {m : LockMode} : (x, m) ∉ t'.locks := by
  intro locked
  have modes := (apart _ (of_decide_eq_true own) _ locked rfl).1
  cases modes

private theorem shows_commit (respects : R.Respects V)
    (apart : ∀ x ∈ t.locks, ∀ y ∈ t'.locks, Compatible x y) {x : L} {m : LockMode}
    (locked : (x, m) ∈ t.locks) :
    R.shows (t.view V (t'.view V base)) x ↔ R.shows (t.view V base) x := by
  rw [shows_view respects, shows_view respects]
  split
  · rfl
  · rw [shows_view respects, foreign_of_locked apart locked, if_neg Bool.false_ne_true]

private theorem refers_commit (respects : R.Respects V)
    (apart : ∀ x ∈ t.locks, ∀ y ∈ t'.locks, Compatible x y) (other : Guarded R V base t') {o x : L}
    (own : t.owns x = true) (refers : R.refers (t.view V (t'.view V base)) o x) :
    R.refers (t.view V base) o x := by
  rw [refers_view respects] at refers ⊢
  cases mine : t.owns o with
  | true =>
      rw [mine] at refers
      exact refers
  | false =>
      rw [mine, if_neg Bool.false_ne_true, refers_view respects] at refers
      rw [if_neg Bool.false_ne_true]
      cases theirs : t'.owns o with
      | true =>
          rw [theirs, if_pos rfl] at refers
          rcases other.covered o x theirs refers with ⟨m, locked⟩ | committed
          · exact absurd locked (unlocked_of_owned apart own)
          · exact committed
      | false =>
          rw [theirs, if_neg Bool.false_ne_true] at refers
          exact refers

private theorem intact_commit (respects : R.Respects V)
    (apart : ∀ x ∈ t.locks, ∀ y ∈ t'.locks, Compatible x y) (guarded : Guarded R V base t)
    (other : Guarded R V base t') : R.Intact (t.view V (t'.view V base)) := by
  intro o x refers
  cases held : t.owns x with
  | true =>
      rw [shows_commit respects apart (of_decide_eq_true held)]
      exact guarded.intact o x (refers_commit respects apart other held refers)
  | false =>
      -- the row is seen as `t'` leaves it, which is shown if `t'` sees the reference
      have seen : R.refers (t'.view V base) o x → R.shows (t.view V (t'.view V base)) x := by
        intro theirs
        rw [shows_view respects, held, if_neg Bool.false_ne_true]
        exact other.intact o x theirs
      have before := refers
      rw [refers_view respects] at refers
      cases mine : t.owns o with
      | false =>
          rw [mine, if_neg Bool.false_ne_true] at refers
          exact seen refers
      | true =>
          rw [mine, if_pos rfl] at refers
          rcases guarded.covered o x mine refers with ⟨m, locked⟩ | committed
          · rw [shows_commit respects apart locked]
            refine guarded.intact o x ?_
            rw [refers_view respects, mine, if_pos rfl]
            exact refers
          · apply seen
            rw [refers_view respects, foreign_of_locked apart (of_decide_eq_true mine),
              if_neg Bool.false_ne_true]
            exact committed

private theorem guarded_commit (respects : R.Respects V)
    (apart : ∀ x ∈ t.locks, ∀ y ∈ t'.locks, Compatible x y) (guarded : Guarded R V base t)
    (other : Guarded R V base t') : Guarded R V (t'.view V base) t := by
  obtain ⟨f, careful, hold⟩ := guarded.careful
  refine ⟨⟨f, careful, hold.own, fun x known => ?_, fun x o known => ?_⟩,
    intact_commit respects apart guarded other, fun o x own refers => ?_⟩
  · obtain ⟨shown, m, locked⟩ := hold.shown x known
    exact ⟨(shows_commit respects apart locked).mpr shown, m, locked⟩
  · obtain ⟨locked, absent⟩ := hold.free x o known
    exact ⟨locked, fun present =>
      absent (refers_commit respects apart other (owned locked) present)⟩
  · refine (guarded.covered o x own refers).imp_right fun committed => ?_
    rw [refers_view respects, foreign_of_locked apart (of_decide_eq_true own),
      if_neg Bool.false_ne_true]
    exact committed

end Commits

section Runs

variable {programs : I → Prog S L ε α}

private theorem sound_step (respects : R.Respects V)
    (careful : ∀ i, Careful R (fun _ _ => True) (programs i) .nothing) {w w' : World I S L ε α}
    (exclusion : Exclusion w) (sound : Sound R V w) (step : Step V programs w w') :
    Sound R V w' := by
  have keeps : ∀ {base : S} {j : I} {status : Status S L ε α},
      (∀ t, status = .running t → Guarded R V base t) →
      (∀ i t, i ≠ j → w.status i = .running t → Guarded R V base t) →
      ∀ i t, (World.set { w with base := base } j status).status i = .running t →
        Guarded R V base t := by
    intro base j status new old i t running
    by_cases here : i = j
    · subst here
      rw [set_self] at running
      exact new t running
    · rw [set_other _ _ here] at running
      exact old i t here running
  cases step with
  | start j idle =>
      refine ⟨sound.intact, keeps (fun t same => ?_) fun i t _ => sound.guarded i t⟩
      cases same
      exact guarded_start respects sound.intact (careful j)
  | exec j running next free done =>
      have sync := respects.sync w.base
      refine ⟨(sync _).intact sound.intact, keeps (fun t same => ?_) fun i t _ other => ?_⟩
      · cases same
        exact guarded_next respects (sound.guarded j _ running) next done
      · exact guarded_congr respects (sync _) (sound.guarded i t other)
  | commit j running next =>
      have committed := sound.guarded j _ running
      refine ⟨committed.intact, keeps (fun t same => nomatch same) fun i t away other => ?_⟩
      exact guarded_commit respects (exclusion i j t _ away other running)
        (sound.guarded i t other) committed
  | abort j running =>
      exact ⟨sound.intact, keeps (fun t same => nomatch same) fun i t _ => sound.guarded i t⟩

/-- Careful transactions never leave a dangling reference. -/
theorem sound_of_careful (respects : R.Respects V)
    (careful : ∀ i, Careful R (fun _ _ => True) (programs i) .nothing) (run : Run V programs)
    (intact : R.Intact (run.state 0).base) : ∀ n, Sound R V (run.state n) := by
  have start : Sound R V (run.state 0) := by
    refine ⟨intact, fun i t running => ?_⟩
    rw [run.start] at running
    cases running
  intro n
  exact run.invariant start
    (fun m _ before step => sound_step respects careful (run.exclusion m) before step) n
    (Nat.zero_le n)

omit [DecidableEq I] in
/-- No transaction hides what another one has begun to refer to. -/
theorem Sound.shows_of_added (respects : R.Respects V) {w : World I S L ε α} (sound : Sound R V w)
    (exclusion : Exclusion w) {i j : I} {t t' : Txn S L ε α} (ne : i ≠ j)
    (first : w.status i = .running t) (second : w.status j = .running t') {o x : L}
    (added : R.refers (t'.view V w.base) o x) (new : ¬ R.refers w.base o x) :
    R.shows (t.view V w.base) x ↔ R.shows w.base x := by
  rw [refers_view respects] at added
  cases own : t'.owns o with
  | false =>
      rw [own, if_neg Bool.false_ne_true] at added
      exact absurd added new
  | true =>
      rw [own, if_pos rfl] at added
      obtain ⟨m, locked⟩ :=
        ((sound.guarded j t' second).covered o x own added).resolve_right new
      have apart := exclusion j i t' t (Ne.symm ne) second first
      rw [shows_view respects, foreign_of_locked apart locked, if_neg Bool.false_ne_true]

end Runs

end Worlds

end Cgimap.Library.GuardedReferences
