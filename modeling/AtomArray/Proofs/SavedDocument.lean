import AtomArray.Proofs.SavedRecords

/-!
Loading saved documents.

A file holds less than the document that it was written from. `Document.reloaded` says what comes
back: a binary number is the decimal of its digits, a decimal without fraction and exponent a whole
number, a tuple a list, every key a text, and the service of a task for a queue the plain record of
its settings.

The `Fate` of a document is whether it can be written, whether it can then be read, and whether it
is the same (`Document.Saved`, `Document.HasFate`). It is passed on from the parts to the whole.
-/

namespace AtomArray

open List Outcome Json Bool

/-! ### Fates -/

/-- Do two keys count as the same? Texts and the names of couplings do, whole numbers do not count
as texts. -/
def DocumentKey.same : DocumentKey → DocumentKey → Bool
  | whole i, whole j => i = j
  | whole _, _ | _, whole _ => false
  | k, l => k.written = l.written

def DocumentKey.isWhole : DocumentKey → Bool
  | whole _ => true
  | _ => false

/-- What becomes of a document that is written and read. -/
structure Fate where
  /-- Can it be written? -/
  written : Bool
  /-- Is it read if it was written? -/
  readable : Bool
  /-- Is it the same if it was read? -/
  kept : Bool

namespace Fate

def unchanged : Fate := ⟨true, true, true⟩

/-- What becomes of two documents together. -/
def and (f g : Fate) : Fate :=
  ⟨f.written && g.written, f.readable && g.readable, f.kept && g.kept⟩

variable (fs : List Fate)

def all : Fate := fs.foldr and unchanged

def lost (f : Fate) : Fate := { f with kept := false }

/-- The fate of a document under a key. Whole numbers are read as texts. -/
def under (k : DocumentKey) (f : Fate) : Fate := { f with kept := !k.isWhole && f.kept }

@[simp]
theorem all_nil : all [] = unchanged := rfl

@[simp]
theorem all_cons (f : Fate) (fs : List Fate) : all (f :: fs) = f.and (all fs) := rfl

@[simp]
theorem and_unchanged (f : Fate) : f.and unchanged = f := by
  simp [and, unchanged]

@[simp]
theorem unchanged_and (f : Fate) : unchanged.and f = f := rfl

theorem written_all : (all fs).written = fs.all written := by
  induction fs with
  | nil => rfl
  | cons f fs ih => rw [all_cons, and, ih, List.all_cons]

theorem readable_all : (all fs).readable = fs.all readable := by
  induction fs with
  | nil => rfl
  | cons f fs ih => rw [all_cons, and, ih, List.all_cons]

theorem written_and {f g : Fate} : (f.and g).written ↔ f.written ∧ g.written :=
  and_eq_true_iff

theorem readable_and {f g : Fate} :
    (f.and g).readable ↔ f.readable ∧ g.readable :=
  and_eq_true_iff

end Fate

/-- The outcome is a value, if there is to be one, and a failure if not. -/
def Outcome.Answers {α : Type} (o : Outcome α) (r : Bool) (a : α) : Prop :=
  match r with
  | true => o = .ok a
  | false => o.isOk = false

namespace Outcome

variable {α β γ : Type} {x : Outcome α} {y : Outcome β} {r s : Bool} {a : α} {b : β}

theorem Answers.isOk (h : Answers x r a) : x.isOk = r := by
  cases r with
  | true =>
    obtain rfl : x = .ok a := h
    rfl
  | false => exact h

theorem Answers.bind {f : α → Outcome β} (hx : Answers x r a) (hf : Answers (f a) s b) :
    Answers (x >>= f) (r && s) b := by
  cases r with
  | true =>
    obtain rfl : x = .ok a := hx
    exact hf
  | false =>
    cases x with
    | error e => rfl
    | ok a => cases hx

theorem Answers.map (hx : Answers x r a) (f : α → β) : Answers (do return f (← x)) r (f a) := by
  have h : Answers (x >>= fun a => .ok (f a)) (r && true) (f a) := hx.bind rfl
  rwa [Bool.and_true] at h

theorem Answers.both (hx : Answers x r a) (hy : Answers y s b) (f : α → β → γ) :
    Answers (do return f (← x) (← y)) (r && s) (f a b) :=
  hx.bind (hy.map (f a))

end Outcome

namespace Document

mutual

/-- What a document is after it was written and read. -/
def reloaded : Document → Document
  | binary x => decimal (Binary.textDecimal x)
  | decimal d => (Json.rereadDecimal d).document
  | list items | tuple items => list (reloadedItems items)
  | dict members => dict (reloadedMembers members)
  | object c parts => object c (reloadedParts parts)
  | spec s => spec s.reread
  | backend b => b.publicRecord.document
  | null => null
  | bool b => bool b
  | int i => int i
  | text s => text s
  | source l => source l
  | simulated s => simulated s
  | results r => results r
  | decoder d => decoder d
  | unsavable => unsavable

def reloadedItems : List Document → List Document
  | [] => []
  | d :: ds => d.reloaded :: reloadedItems ds

def reloadedMembers : List (DocumentKey × Document) → List (DocumentKey × Document)
  | [] => []
  | (k, d) :: ms => (.text k.written, d.reloaded) :: reloadedMembers ms

def reloadedParts : List (String × Document) → List (String × Document)
  | [] => []
  | (k, d) :: ps => (k, d.reloaded) :: reloadedParts ps

end

theorem reloadedItems_eq_map (ds : List Document) : reloadedItems ds = ds.map reloaded := by
  induction ds with
  | nil => rfl
  | cons d ds ih => rw [reloadedItems, ih, map_cons]

theorem reloadedMembers_eq_map (ms : List (DocumentKey × Document)) :
    reloadedMembers ms = ms.map fun m => (.text m.1.written, m.2.reloaded) := by
  induction ms with
  | nil => rfl
  | cons m ms ih => rw [reloadedMembers, ih, map_cons]

theorem reloadedParts_eq_map (ps : List (String × Document)) :
    reloadedParts ps = ps.map fun p => (p.1, p.2.reloaded) := by
  induction ps with
  | nil => rfl
  | cons p ps ih => rw [reloadedParts, ih, map_cons]

/-- Something can be written, if `w`, and its text is then read as a document, if `r`. -/
def SavedAs (o : Outcome Json) (w r : Bool) (d : Document) : Prop :=
  ∃ j, Answers o w j ∧ (w → j.isReadable ∧ Answers (load j.reread) r d)

/-- A document can be written and read as its fate tells. -/
def Saved (d : Document) (f : Fate) : Prop := SavedAs d.save f.written f.readable d.reloaded

variable {c : SavedClass} {d : Document} {f : Fate} {fs : List Fate} {j : Json}

theorem savedAs_ok (hreadable : j.isReadable) (hload : load j.reread = .ok d) :
    SavedAs (.ok j) true true d :=
  ⟨j, rfl, fun _ => ⟨hreadable, hload⟩⟩

theorem savedAs_verbal (h : j.isVerbal) : SavedAs (.ok j) true true j.document :=
  savedAs_ok (isReadable_of_isTidy (isTidy_of_isVerbal h)) (load_of_isVerbal h)

theorem saved_null : null.Saved .unchanged := savedAs_ok rfl rfl

theorem saved_int (i : Int) : (int i).Saved .unchanged := savedAs_ok rfl rfl

theorem saved_text (s : String) : (text s).Saved .unchanged := savedAs_ok rfl rfl

/-- An object is written to a text, and read from it, as its fate tells. -/
theorem Saved.dump {ps : List (String × Document)} (h : (object c ps).Saved f) :
    (object c ps).dump.isOk = f.written ∧ (f.written → ∃ t, (object c ps).dump = .ok t ∧
        Answers (parse t) f.readable (object c ps).reloaded) := by
  obtain ⟨j, hsave, hread⟩ := h
  have hdump := hsave.map Json.text
  refine ⟨hdump.isOk, fun hw => ⟨j.text, ?_, ?_⟩⟩
  · rw [hw] at hdump
    exact hdump
  · rw [parse, parse?_text _ (hread hw).1]
    exact (hread hw).2

/-! ### Lists and dictionaries -/

variable {ds : List Document} {ms : List (DocumentKey × Document)} {given : Given}

theorem exists_saveItems (h : Forall₂ Saved ds fs) :
    ∃ js, Answers (saveItems ds) (Fate.all fs).written js ∧
      ((Fate.all fs).written → (Json.arr js).isReadable ∧
        Answers (loadItems (Json.rereadItems js)) (Fate.all fs).readable (reloadedItems ds)) := by
  induction h with
  | nil => exact ⟨[], rfl, fun _ => ⟨rfl, rfl⟩⟩
  | cons hd _ ih =>
    obtain ⟨j, hsave, hread⟩ := hd
    obtain ⟨js, hsaves, hreads⟩ := ih
    refine ⟨j :: js, hsave.both hsaves cons, fun hw => ?_⟩
    obtain ⟨hwd, hwds⟩ := Fate.written_and.mp hw
    exact ⟨and_eq_true_iff.mpr ⟨(hread hwd).1, (hreads hwds).1⟩,
      (hread hwd).2.both (hreads hwds).2 cons⟩

theorem saved_list (h : Forall₂ Saved ds fs) : (list ds).Saved (.all fs) := by
  obtain ⟨js, hsaves, hreads⟩ := exists_saveItems h
  exact ⟨.arr js, hsaves.map Json.arr, fun hw => ⟨(hreads hw).1, (hreads hw).2.map list⟩⟩

theorem load_obj {js : Members} {r : Bool}
    (htidy : Json.keysTidy (given.map Prod.fst))
    (hkeys : js.map Prod.fst = given.map Prod.fst)
    (hloads : Answers (loadMembers (Json.rereadMembers js)) r given) :
    Answers (load (Json.obj js).reread) r (dict (given.map fun g => (.text g.1, g.2))) := by
  rw [Json.keysTidy, and_eq_true, decide_eq_true_eq] at htidy
  have hmembers : Answers (ofMembers given) true (dict (given.map fun g => (.text g.1, g.2))) := by
    refine ofMembers_of_keys fun g hg => ?_
    simpa using all_eq_true.mp htidy.2 g.1 (mem_map_of_mem hg)
  have hload := hloads.bind hmembers
  rw [Bool.and_true] at hload
  rwa [reread_obj (hkeys ▸ htidy.1), load]

/-- Members can be written, if `w`, and they are then read under their keys, if `r`. -/
def MembersSavedAs (o : Outcome Members) (w r : Bool) (given : Given) : Prop :=
  ∃ js, Answers o w js ∧ (w → Json.haveReadable js ∧ js.map Prod.fst = given.map Prod.fst ∧
    Answers (loadMembers (Json.rereadMembers js)) r given)

namespace MembersSavedAs

variable {o : Outcome Json} {os : Outcome Members} {w r ws rs : Bool} {k : String}

theorem nil : MembersSavedAs (.ok []) true true [] := ⟨[], rfl, fun _ => ⟨rfl, rfl, rfl⟩⟩

theorem cons (hs : MembersSavedAs os ws rs given) (h : SavedAs o w r d) :
    MembersSavedAs (do return (k, ← o) :: (← os)) (w && ws) (r && rs) ((k, d) :: given) := by
  obtain ⟨j, hsave, hread⟩ := h
  obtain ⟨js, hsaves, hreads⟩ := hs
  refine ⟨(k, j) :: js, hsave.both hsaves fun j js => (k, j) :: js, fun hw => ?_⟩
  obtain ⟨hw, hws⟩ := and_eq_true_iff.mp hw
  obtain ⟨hreadables, hkeys, hloads⟩ := hreads hws
  exact ⟨and_eq_true_iff.mpr ⟨(hread hw).1, hreadables⟩, congrArg _ hkeys,
    (hread hw).2.both hloads fun d ds => (k, d) :: ds⟩

end MembersSavedAs

theorem saved_dict (h : Forall₂ (fun m f => m.2.Saved f) ms fs)
    (htidy : Json.keysTidy (ms.map fun m => m.1.written)) : (dict ms).Saved (.all fs) := by
  have hmembers : MembersSavedAs (saveMembers ms) (Fate.all fs).written (Fate.all fs).readable
      (ms.map fun m => (m.1.written, m.2.reloaded)) := by
    clear htidy
    induction h with
    | nil => exact .nil
    | cons hm _ ih => exact ih.cons hm
  obtain ⟨js, hsaves, hreads⟩ := hmembers
  refine ⟨.obj js, hsaves.map Json.obj, fun hw => ?_⟩
  obtain ⟨hreadables, hkeys, hloads⟩ := hreads hw
  have hnames : (ms.map fun m => (m.1.written, m.2.reloaded)).map Prod.fst =
      ms.map fun m => m.1.written := by
    rw [map_map]
    rfl
  have hload := load_obj (by rwa [hnames]) hkeys hloads
  rw [map_map] at hload
  rw [reloaded, reloadedMembers_eq_map]
  exact ⟨hreadables, hload⟩

/-! ### Objects -/

/-- How a class writes one of its parts. -/
def savePart (c : SavedClass) (k : String) (d : Document) : Outcome Json :=
  (ownRecord? c k d).getD d.save

theorem saveParts_cons (c : SavedClass) (k : String) (d : Document)
    (ps : List (String × Document)) :
    saveParts c ((k, d) :: ps) = if isDropped c k then saveParts c ps else do
        let j ← savePart c k d
        return (k, j) :: (← saveParts c ps) := by
  rw [saveParts, savePart]
  split
  · rfl
  · cases ownRecord? c k d <;> rfl

variable {ps : List (String × Document)}

/-- The parts of an object are written by its class as their fates tell, and loaded under their
names. Some are left out. -/
inductive PartsSaved (c : SavedClass) :
    List (String × Document) → List Fate → Given → Prop where
  | nil : PartsSaved c [] [] []
  | cons {k : String} {d e : Document} {f : Fate} {ps : List (String × Document)} {fs : List Fate}
      {given : Given} : isDropped c k = false → SavedAs (savePart c k d) f.written f.readable e →
      PartsSaved c ps fs given → PartsSaved c ((k, d) :: ps) (f :: fs) ((k, e) :: given)
  | dropped {k : String} {d : Document} {ps : List (String × Document)} {fs : List Fate}
      {given : Given} : isDropped c k → PartsSaved c ps fs given →
      PartsSaved c ((k, d) :: ps) fs given

theorem PartsSaved.membersSavedAs (h : PartsSaved c ps fs given) :
    MembersSavedAs (saveParts c ps) (Fate.all fs).written (Fate.all fs).readable given := by
  induction h with
  | nil => exact .nil
  | cons hkept hpart _ ih =>
    rw [saveParts_cons, if_neg (by simp [hkept])]
    exact ih.cons hpart
  | dropped hdropped _ ih =>
    rw [saveParts_cons, if_pos hdropped]
    exact ih

theorem PartsSaved.savedAs (h : PartsSaved c ps fs given) {r : Bool}
    (htidy : Json.keysTidy (given.map Prod.fst))
    (hbuild : (Fate.all fs).written →
      Answers (build c (dict (given.map fun g => (.text g.1, g.2)))) r d) :
    SavedAs (object c ps).save (Fate.all fs).written ((Fate.all fs).readable && r) d := by
  obtain ⟨js, hsaves, hreads⟩ := h.membersSavedAs
  refine ⟨.obj [(c.key, .obj js)], hsaves.map fun js => Json.obj [(c.key, .obj js)], fun hw => ?_⟩
  obtain ⟨hreadables, hkeys, hloads⟩ := hreads hw
  refine ⟨?_, ?_⟩
  · simpa [Json.every, Json.haveAll] using hreadables
  · have hload := (load_obj htidy hkeys hloads).bind (hbuild hw)
    rw [reread_obj (by simp), Json.rereadMembers, Json.rereadMembers, load, loadMembers]
    simpa [loadMembers, ofMembers, SavedClass.ofKey?_key] using hload

theorem given?_dict (given : Given) :
    given? (dict (given.map fun g => (.text g.1, g.2))) = some given := by
  rw [given?, map_map]
  exact congrArg some (map_id given)

theorem keysTidy_partsOf (c : SavedClass) : Json.keysTidy ((partsOf c).map Prod.fst) := by
  cases c <;> decide

theorem nodup_partsOf (c : SavedClass) : ((partsOf c).map Prod.fst).Nodup := by
  have htidy := keysTidy_partsOf c
  rw [Json.keysTidy, and_eq_true, decide_eq_true_eq] at htidy
  exact htidy.1

theorem mapM_partOr {gs : Given} (hnodup : (given.map Prod.fst).Nodup)
    {ps : List (String × Option Document)} (h : gs.map Prod.fst = ps.map Prod.fst)
    (hgs : ∀ g ∈ gs, g ∈ given) : ps.mapM (partOr given) = .ok gs := by
  induction ps generalizing gs with
  | nil =>
    obtain rfl := map_eq_nil_iff.mp h
    rfl
  | cons p ps ih =>
    obtain ⟨g, gs, rfl⟩ : ∃ g gs', gs = g :: gs' := by
      cases gs with
      | nil => cases h
      | cons g gs => exact ⟨g, gs, rfl⟩
    obtain ⟨hg, hrest⟩ := forall_mem_cons.mp hgs
    obtain ⟨hname, hnames⟩ := cons.inj h
    have hpart : partOr given p = .ok g := by
      have hlookup : given.lookup g.1 = some g.2 := lookup_of_mem hnodup hg
      rw [partOr, ← hname, hlookup]
    rw [mapM_cons, hpart, ih hnames hrest]
    rfl

/-- An object is made of its parts if all of them are given in their order. -/
theorem construct_eq_ok (h : given.map Prod.fst = (partsOf c).map Prod.fst) :
    construct c given = .ok (object c given) := by
  have hnodup : (given.map Prod.fst).Nodup := h ▸ nodup_partsOf c
  have hknown : (given.any fun g => ((partsOf c).lookup g.1).isNone) = false := by
    rw [any_eq_false]
    intro g hg hnone
    rw [Option.isNone_iff_eq_none, lookup_eq_none, ← h] at hnone
    exact hnone (mem_map_of_mem hg)
  unfold construct
  rw [hknown, mapM_partOr hnodup h fun _ hg => hg]
  rfl

/-- The classes that are written part by part and built from what is read. -/
def isPlainClass : SavedClass → Bool
  | .program | .register | .fields | .detuningTerm | .detuningOperator | .rabiTerm | .rabiOperator
  | .twoLevels | .threeLevels | .taskError => true
  | _ => false

theorem savePart_plain (hc : isPlainClass c) (k : String) (d : Document) :
    isDropped c k = false ∧ savePart c k d = d.save := by
  cases c <;> first | exact ⟨rfl, rfl⟩ | cases hc

theorem build_plain (hc : isPlainClass c) (given : Given) :
    build c (dict (given.map fun g => (.text g.1, g.2))) = construct c given := by
  have hgiven := given?_dict given
  cases c <;> first | simp only [build, hgiven]; done | cases hc

theorem saved_object (hc : isPlainClass c)
    (hnames : ps.map Prod.fst = (partsOf c).map Prod.fst)
    (h : Forall₂ Saved (ps.map Prod.snd) fs) : (object c ps).Saved (.all fs) := by
  have hkeys : (reloadedParts ps).map Prod.fst = (partsOf c).map Prod.fst := by
    rw [reloadedParts_eq_map, map_map]
    exact hnames
  have hbuild : Answers (build c (dict ((reloadedParts ps).map fun g => (.text g.1, g.2)))) true
      (object c ps).reloaded :=
    (build_plain hc _).trans (construct_eq_ok hkeys)
  have hparts : PartsSaved c ps fs (reloadedParts ps) := by
    clear hnames hkeys hbuild
    induction ps generalizing fs with
    | nil =>
      cases h
      exact .nil
    | cons p ps ih =>
      obtain _ | ⟨hp, hps⟩ := h
      obtain ⟨hkept, hown⟩ := savePart_plain hc p.1 p.2
      exact .cons hkept (by rwa [hown]) (ih hps)
  have hsaved := hparts.savedAs (hkeys ▸ keysTidy_partsOf c) fun _ => hbuild
  rwa [Bool.and_true] at hsaved

/-! ### Equality -/

/-- The number that a document is, if it is one. -/
def number? : Document → Option Decimal
  | bool b => some (if b then 1 else 0)
  | int i => some (.ofInt i)
  | decimal d => some d
  | binary x => some (Binary.exact x)
  | _ => none

def sameNumber (d e : Document) : Bool :=
  match d.number?, e.number? with
  | some a, some b => a.sameValue b
  | _, _ => false

/-- Are two things that saved forms were read as the same waveform? -/
def sameSource : Loaded Quantity → Loaded Quantity → Bool
  | .waveform v, .waveform w => v.same w
  | _, _ => false

/-- The member of a dictionary under a key. -/
def member? (k : DocumentKey) (ms : List (DocumentKey × Document)) : Option Document :=
  (ms.find? fun m => k.same m.1).map (·.2)

mutual

/-- Are two documents the same, numbers by their values, and dictionaries in whatever order? -/
def same : Document → Document → Bool
  | null, e => match e with
    | null => true
    | _ => false
  | text s, e => match e with
    | text t => s = t
    | _ => false
  | list ds, e => match e with
    | list es => sameItems ds es
    | _ => false
  | tuple ds, e => match e with
    | tuple es => sameItems ds es
    | _ => false
  | dict ms, e => match e with
    | dict ns => ms.length = ns.length && sameMembers ms ns
    | _ => false
  | object c ps, e => match e with
    | object c' qs => c = c' && sameParts ps qs
    | _ => false
  | source l, e => match e with
    | source m => sameSource l m
    | _ => false
  | spec s, e => match e with
    | spec t => s.same t
    | _ => false
  | simulated s, e => match e with
    | simulated t => s.same t
    | _ => false
  | results r, e => match e with
    | results q => r = q
    | _ => false
  | decoder d, e => match e with
    | decoder d' => d = d'
    | _ => false
  | backend b, e => match e with
    | backend b' => b = b'
    | _ => false
  | d, e => sameNumber d e
termination_by structural d => d

def sameItems : List Document → List Document → Bool
  | [], es => es.isEmpty
  | d :: ds, es => match es with
    | e :: es => d.same e && sameItems ds es
    | [] => false
termination_by structural ds => ds

def sameMembers : List (DocumentKey × Document) → List (DocumentKey × Document) → Bool
  | [], _ => true
  | (k, d) :: ms, ns => (match member? k ns with
    | some e => d.same e
    | none => false) && sameMembers ms ns
termination_by structural ms => ms

def sameParts : List (String × Document) → List (String × Document) → Bool
  | [], qs => qs.isEmpty
  | (k, d) :: ps, qs => match qs with
    | (l, e) :: qs => k = l && d.same e && sameParts ps qs
    | [] => false
termination_by structural ps => ps

end

theorem same_number {e : Document} {a b : Decimal} (hd : d.number? = some a)
    (he : e.number? = some b) : d.same e = a.sameValue b := by
  cases d with
  | bool _ | int _ | decimal _ | binary _ => simp [same, sameNumber, hd, he]
  | _ => cases hd

theorem number?_rereadDecimal (d : Decimal) :
    (Json.rereadDecimal d).document.number? = some d.reread := by
  cases d with
  | finite s c e =>
    rw [Json.rereadDecimal, Decimal.reread]
    split <;> rfl
  | infinite s => rfl
  | nan s g n => rfl

theorem member?_of_isWhole {k : DocumentKey} (h : k.isWhole)
    (ms : List (DocumentKey × Document)) : member? k (reloadedMembers ms) = Option.none := by
  rw [member?, Option.map_eq_none_iff, reloadedMembers_eq_map, find?_eq_none]
  intro m hm
  obtain ⟨n, -, rfl⟩ := mem_map.mp hm
  cases k with
  | whole i => simp [DocumentKey.same]
  | text s => cases h
  | coupling c => cases h

theorem member?_of_mem {k : DocumentKey} (h : k.isWhole = false)
    (hnodup : (ms.map fun m => m.1.written).Nodup) (hmem : (k, d) ∈ ms) :
    member? k (reloadedMembers ms) = some d.reloaded := by
  have hkey : ∀ s, k.same (.text s) = decide (k.written = s) := by
    intro s
    cases k with
    | whole i => cases h
    | text t => rfl
    | coupling c => rfl
  induction ms with
  | nil => cases hmem
  | cons m ms ih =>
    obtain ⟨hm, hnodup⟩ := nodup_cons.mp hnodup
    rw [member?, reloadedMembers, find?_cons, hkey]
    rcases mem_cons.mp hmem with rfl | hmem
    · simp
    · have hne : k.written ≠ m.1.written := by
        intro heq
        exact hm (mem_map.mpr ⟨(k, d), hmem, heq⟩)
      rw [decide_eq_false hne]
      exact ih hnodup hmem

/-! ### What becomes of documents -/

/-- A document has the fate that is told of it. -/
structure HasFate (d : Document) (f : Fate) : Prop where
  saved : d.Saved f
  same : f.written → f.readable → d.same d.reloaded = f.kept

theorem hasFate_null : null.HasFate .unchanged where
  saved := saved_null
  same _ _ := rfl

theorem hasFate_int (i : Int) : (int i).HasFate .unchanged where
  saved := saved_int i
  same _ _ := by
    rw [reloaded, same_number rfl rfl, Decimal.sameValue_self rfl]
    rfl

theorem sameItems_reloaded (h : Forall₂ HasFate ds fs) (hw : (Fate.all fs).written)
    (hr : (Fate.all fs).readable) :
    sameItems ds (reloadedItems ds) = (Fate.all fs).kept := by
  induction h with
  | nil => rfl
  | cons hd _ ih =>
    obtain ⟨hwd, hwds⟩ := Fate.written_and.mp hw
    obtain ⟨hrd, hrds⟩ := Fate.readable_and.mp hr
    rw [reloadedItems, sameItems, hd.same hwd hrd, ih hwds hrds]
    rfl

theorem hasFate_list (h : Forall₂ HasFate ds fs) : (list ds).HasFate (.all fs) where
  saved := saved_list (h.imp fun _ _ hd => hd.saved)
  same hw hr := by rw [reloaded, same, sameItems_reloaded h hw hr]

theorem hasFate_tuple (h : Forall₂ HasFate ds fs) : (tuple ds).HasFate (Fate.all fs).lost where
  saved := (hasFate_list h).saved
  same _ _ := rfl

theorem hasFate_object (hc : isPlainClass c)
    (hnames : ps.map Prod.fst = (partsOf c).map Prod.fst)
    (h : Forall₂ HasFate (ps.map Prod.snd) fs) : (object c ps).HasFate (.all fs) where
  saved := saved_object hc hnames (h.imp fun _ _ hp => hp.saved)
  same hw hr := by
    have hparts : sameParts ps (reloadedParts ps) =
        sameItems (ps.map Prod.snd) (reloadedItems (ps.map Prod.snd)) := by
      clear hnames h
      induction ps with
      | nil => rfl
      | cons p ps ih => simp [reloadedParts, sameParts, sameItems, reloadedItems, ih]
    rw [reloaded, same, hparts, sameItems_reloaded h hw hr, decide_eq_true rfl, Bool.true_and]

section Maps

variable {α : Type} {f : α → Document} {g : α → Fate} {as : List α}

theorem forall₂_hasFate (h : ∀ a ∈ as, (f a).HasFate (g a)) :
    Forall₂ HasFate (as.map f) (as.map g) := by
  rwa [forall₂_map_left_iff, forall₂_map_right_iff, forall₂_same]

/-- A dictionary under keys that are written as distinct texts, none that of a class. -/
theorem hasFate_dict (key : α → DocumentKey) (h : ∀ a ∈ as, (f a).HasFate (g a))
    (htidy : Json.keysTidy (as.map fun a => (key a).written)) :
    (dict (as.map fun a => (key a, f a))).HasFate (.all (as.map fun a => (g a).under (key a))) where
  saved := by
    refine saved_dict ?_ (by rwa [map_map])
    rw [forall₂_map_left_iff, forall₂_map_right_iff, forall₂_same]
    exact fun a ha => (h a ha).saved
  same hw hr := by
    rw [Json.keysTidy, and_eq_true, decide_eq_true_eq] at htidy
    have hnodup : ((as.map fun a => (key a, f a)).map fun m => m.1.written).Nodup := by
      rw [map_map]
      exact htidy.1
    suffices hsame : ∀ bs : List α, (∀ b ∈ bs, b ∈ as) →
        (Fate.all (bs.map fun a => (g a).under (key a))).written →
        (Fate.all (bs.map fun a => (g a).under (key a))).readable →
        sameMembers (bs.map fun a => (key a, f a)) (reloadedMembers (as.map fun a => (key a, f a))) =
          (Fate.all (bs.map fun a => (g a).under (key a))).kept by
      rw [reloaded, same, hsame as (fun _ hb => hb) hw hr]
      simp [reloadedMembers_eq_map]
    intro bs hbs hw hr
    induction bs with
    | nil => rfl
    | cons b bs ih =>
      obtain ⟨hb, hbs⟩ := forall_mem_cons.mp hbs
      obtain ⟨hwb, hwbs⟩ := Fate.written_and.mp hw
      obtain ⟨hrb, hrbs⟩ := Fate.readable_and.mp hr
      rw [map_cons, sameMembers, ih hbs hwbs hrbs]
      cases hk : (key b).isWhole with
      | true =>
        rw [member?_of_isWhole hk]
        simp [Fate.and, Fate.under, hk]
      | false =>
        rw [member?_of_mem hk hnodup (mem_map_of_mem hb)]
        simp [(h b hb).same hwb hrb, Fate.and, Fate.under, hk]

end Maps

end Document

end AtomArray
