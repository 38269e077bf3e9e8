import AtomArray.Proofs.SavedDocument

/-!
What saved batches have in common.

Parameters are read back up to the sorts of their numbers (`Param.document_reread`), and are the same
exactly if every binary number is the decimal that it is written as (`Param.hasFate_document`). A
batch can be written if all of its tasks can, is read if all of them are, and keeps its name, its
numbers and their order (`Document.saved_batch`, `Document.reloaded_batch`).
-/

namespace AtomArray

open List Outcome Document

/-! ### Parameters -/

namespace Quantity

def isSavable : Quantity → Bool
  | decimal _ => true
  | binary x => !(x.isNaN || x.isInf)

/-- Is a decimal one that a text can give? -/
def isFormed : Quantity → Bool
  | decimal d => d.isFinite && d.inRange
  | binary _ => true

end Quantity

namespace Param

mutual

/-- Can a parameter be written? Arrays and numbers outside the reals cannot. -/
def isSavable : Param Quantity → Bool
  | number v => v.isSavable
  | list ps => areSavable ps
  | array _ => false
  | record ms => haveSavable ms
  | whole _ | flag _ | text _ | none => true

def areSavable : List (Param Quantity) → Bool
  | [] => true
  | p :: ps => p.isSavable && areSavable ps

def haveSavable : Env Quantity → Bool
  | [] => true
  | (_, p) :: ms => p.isSavable && haveSavable ms

end

mutual

/-- Are all decimals of a parameter such that a text can give them, and all names in its records
distinct and none that of a class? -/
def isFormed : Param Quantity → Bool
  | number v => v.isFormed
  | list ps => areFormed ps
  | array _ => true
  | record ms => Json.keysTidy (ms.map Prod.fst) && haveFormed ms
  | whole _ | flag _ | text _ | none => true

def areFormed : List (Param Quantity) → Bool
  | [] => true
  | p :: ps => p.isFormed && areFormed ps

def haveFormed : Env Quantity → Bool
  | [] => true
  | (_, p) :: ms => p.isFormed && haveFormed ms

end

mutual

/-- A parameter after it was written and read. -/
def reread : Param Quantity → Param Quantity
  | number (.binary x) => number (.decimal (Binary.textDecimal x))
  | number (.decimal (.finite s c e)) =>
    if e = 0 then whole (if s then -(c : Int) else c) else number (.decimal (.finite s c e))
  | number v => number v
  | list ps => list (rereadAll ps)
  | array ps => array ps
  | record ms => record (rereadMembers ms)
  | whole i => whole i
  | flag b => flag b
  | text s => text s
  | none => none

def rereadAll : List (Param Quantity) → List (Param Quantity)
  | [] => []
  | p :: ps => p.reread :: rereadAll ps

def rereadMembers : Env Quantity → Env Quantity
  | [] => []
  | (k, p) :: ms => (k, p.reread) :: rereadMembers ms

end

mutual

theorem document_reread : ∀ p : Param Quantity, p.reread.document = p.document.reloaded
  | number (.binary _) | whole _ | flag _ | text _ | none | array _ => rfl
  | number (.decimal (.infinite _)) | number (.decimal (.nan ..)) => rfl
  | number (.decimal (.finite s c e)) => by
    rw [reread, document, Quantity.document, Document.reloaded, Json.rereadDecimal]
    split <;> rfl
  | list ps => by
    rw [reread, document, document, Document.reloaded, documents_rereadAll ps]
  | record ms => by
    rw [reread, document, document, Document.reloaded, memberDocuments_rereadMembers ms]

theorem documents_rereadAll : ∀ ps : List (Param Quantity),
    documents (rereadAll ps) = Document.reloadedItems (documents ps)
  | [] => rfl
  | p :: ps => by
    rw [rereadAll, documents, documents, Document.reloadedItems, document_reread p,
      documents_rereadAll ps]

theorem memberDocuments_rereadMembers : ∀ ms : Env Quantity,
    memberDocuments (rereadMembers ms) = Document.reloadedMembers (memberDocuments ms)
  | [] => rfl
  | (k, p) :: ms => by
    rw [rereadMembers, memberDocuments, memberDocuments, Document.reloadedMembers,
      document_reread p, memberDocuments_rereadMembers ms, DocumentKey.written]

end

mutual

/-- Is every binary number of a parameter exactly the decimal that it is written as? -/
def isExact : Param Quantity → Bool
  | number v => match v with
    | .binary x => (Binary.exact x).sameValue (Binary.textDecimal x)
    | .decimal _ => true
  | list ps => areExact ps
  | array _ => false
  | record ms => haveExact ms
  | whole _ | flag _ | text _ | none => true

def areExact : List (Param Quantity) → Bool
  | [] => true
  | p :: ps => p.isExact && areExact ps

def haveExact : Env Quantity → Bool
  | [] => true
  | (_, p) :: ms => p.isExact && haveExact ms

end

def fate (p : Param Quantity) : Fate := ⟨p.isSavable, true, p.isExact⟩

theorem hasFate_number {v : Quantity} (h : v.isFormed) :
    v.document.HasFate (number v).fate := by
  cases v with
  | decimal d =>
    have hsame : d.sameValue d.reread :=
      Decimal.sameValue_reread (Bool.and_eq_true_iff.mp h).1
    have htidy : (Json.decimal d).isTidy := h
    exact ⟨savedAs_ok htidy (Json.load_reread htidy), fun _ _ =>
      (same_number rfl (number?_rereadDecimal d)).trans hsame⟩
  | binary x =>
    refine ⟨⟨.binary x, ?_, fun hw => ⟨hw, rfl⟩⟩, fun _ _ => same_number rfl rfl⟩
    rw [Quantity.document, Document.save, fate, isSavable, Quantity.isSavable]
    cases x.isNaN || x.isInf <;> rfl

variable (ps : List (Param Quantity))

theorem documents_eq_map : documents ps = ps.map document := by
  induction ps with
  | nil => rfl
  | cons p ps ih => rw [documents, ih, map_cons]

variable (ms : Env Quantity)

theorem memberDocuments_eq_map :
    memberDocuments ms = ms.map fun m => (.text m.1, m.2.document) := by
  induction ms with
  | nil => rfl
  | cons m ms ih => rw [memberDocuments, ih, map_cons]

theorem all_fate : Fate.all (ps.map fate) = ⟨areSavable ps, true, areExact ps⟩ := by
  induction ps with
  | nil => rfl
  | cons p ps ih =>
    rw [map_cons, Fate.all_cons, ih]
    rfl

theorem all_fate_under :
    Fate.all (ms.map fun m => m.2.fate.under (.text m.1)) = ⟨haveSavable ms, true, haveExact ms⟩ := by
  induction ms with
  | nil => rfl
  | cons m ms ih =>
    rw [map_cons, Fate.all_cons, ih]
    rfl

mutual

/-- A parameter that can be written is read back, and is the same if all of its numbers are. -/
theorem hasFate_document : ∀ {p : Param Quantity}, p.isFormed → p.document.HasFate p.fate
  | number _, h => hasFate_number h
  | whole i, _ => hasFate_int i
  | none, _ => hasFate_null
  | text s, _ => ⟨saved_text s, fun _ _ => decide_eq_true rfl⟩
  | flag b, _ => ⟨savedAs_ok rfl rfl, fun _ _ => by cases b <;> rfl⟩
  | array _, _ => ⟨⟨.null, rfl, fun hw => by cases hw⟩, fun hw => by cases hw⟩
  | list ps, h => by
    have hlist := hasFate_list (forall₂_hasFate (hasFate_items h))
    rwa [all_fate, ← documents_eq_map] at hlist
  | record ms, h => by
    rw [isFormed, Bool.and_eq_true] at h
    have hdict := hasFate_dict (fun m : String × Param Quantity => .text m.1)
      (hasFate_members h.2) h.1
    rwa [all_fate_under, ← memberDocuments_eq_map] at hdict

theorem hasFate_items : ∀ {ps : List (Param Quantity)}, areFormed ps →
    ∀ p ∈ ps, p.document.HasFate p.fate
  | [], _ => by simp
  | p :: ps, h => by
    rw [areFormed, Bool.and_eq_true] at h
    exact forall_mem_cons.mpr ⟨hasFate_document h.1, hasFate_items h.2⟩

theorem hasFate_members : ∀ {ms : Env Quantity}, haveFormed ms →
    ∀ m ∈ ms, m.2.document.HasFate m.2.fate
  | [], _ => by simp
  | m :: ms, h => by
    rw [haveFormed, Bool.and_eq_true] at h
    exact forall_mem_cons.mpr ⟨hasFate_document h.1, hasFate_members h.2⟩

end

end Param

/-! ### Batches -/

namespace Document

variable {τ : Type} {f : τ → Document} {ts : Numbered τ}

theorem putPair_of_not_mem {k : Int} {d : Document} {ts : Numbered Document}
    (h : k ∉ ts.map Prod.fst) :
    putPair (int k) d (ts.map fun p => list [int p.1, p.2]) =
      (ts.map fun p => list [int p.1, p.2]) ++ [list [int k, d]] := by
  induction ts with
  | nil => rfl
  | cons p ts ih =>
    rw [map_cons, mem_cons, not_or] at h
    have hkey : sameKey (int p.1) (int k) = false := by simp [sameKey, Ne.symm h.1]
    rw [map_cons, putPair, hkey, ih h.2]
    rfl

theorem orderedPairs_numbered (ts : Numbered Document) (h : (ts.map Prod.fst).Nodup) :
    orderedPairs (list (ts.map fun p => list [int p.1, p.2])) =
      .ok (list (ts.map fun p => list [int p.1, p.2])) := by
  have hpairs : (ts.map fun p => list [int p.1, p.2]).mapM asPair =
      .ok (ts.map fun p => (int p.1, p.2)) := by
    rw [mapM_map]
    exact Outcome.mapM_eq_ok fun _ _ => rfl
  have hput : ∀ out rest : Numbered Document, ((out ++ rest).map Prod.fst).Nodup →
      (rest.map fun p => (int p.1, p.2)).foldl (fun out p => putPair p.1 p.2 out)
        (out.map fun p => list [int p.1, p.2]) =
      (out ++ rest).map fun p => list [int p.1, p.2] := by
    intro out rest hnodup
    induction rest generalizing out with
    | nil => simp
    | cons p rest ih =>
      have hp : p.1 ∉ out.map Prod.fst := by
        rw [map_append, map_cons] at hnodup
        intro hmem
        exact (nodup_append.mp hnodup).2.2 _ hmem _ mem_cons_self rfl
      have hnext := ih (out ++ [p]) (by simpa using hnodup)
      rw [map_cons, foldl_cons, putPair_of_not_mem hp]
      simpa using hnext
  unfold orderedPairs
  simp only [hpairs, Outcome.ok_bind]
  exact congrArg (fun ds => Except.ok (list ds)) (hput [] ts (by simpa using h))

theorem reloaded_numberedDocument (f : τ → Document) (ts : Numbered τ) :
    (numberedDocument f ts).reloaded = list (ts.map fun p => list [int p.1, (f p.2).reloaded]) := by
  rw [numberedDocument, reloaded, reloadedItems_eq_map, map_map]
  exact congrArg list (map_congr_left fun p _ => by simp [reloaded, reloadedItems])

def batch (c : SavedClass) (f : τ → Document) (ts : Numbered τ) (name : Option String) : Document :=
  object c [("source", null), ("tasks", numberedDocument f ts), ("name", optionalText name)]

theorem reloaded_optionalText (o : Option String) : (optionalText o).reloaded = optionalText o := by
  cases o <;> rfl

theorem saved_optionalText (o : Option String) : (optionalText o).Saved .unchanged := by
  cases o with
  | none => exact saved_null
  | some s => exact saved_text s

/-- What is read of a batch is one of what is read of its tasks. -/
theorem reloaded_batch {υ : Type} {g : υ → Document} {r : τ → υ}
    (h : ∀ t, (f t).reloaded = g (r t)) (c : SavedClass) (ts : Numbered τ) (name : Option String) :
    (batch c f ts name).reloaded = batch c g (ts.map fun p => (p.1, r p.2)) name := by
  have htasks : (numberedDocument f ts).reloaded =
      numberedDocument g (ts.map fun p => (p.1, r p.2)) := by
    rw [reloaded_numberedDocument, numberedDocument, map_map]
    exact congrArg list (map_congr_left fun p _ => by rw [h]; rfl)
  simp only [batch, reloaded, reloadedParts, htasks, reloaded_optionalText]

def isBatchClass : SavedClass → Bool
  | .localBatch | .remoteBatch => true
  | _ => false

variable {c : SavedClass}

theorem build_batch (hc : isBatchClass c) {tasks : Document}
    (h : orderedPairs tasks = .ok tasks) (source name : Document) :
    let given := [("source", source), ("tasks", tasks), ("name", name)]
    build c (dict (given.map fun g => (.text g.1, g.2))) = .ok (object c given) := by
  intro given
  have hneed : need given "tasks" = .ok tasks := rfl
  have hput : put "tasks" tasks given = given := by simp [given, put, Json.insert]
  have hgiven := given?_dict given
  cases c with
  | localBatch | remoteBatch =>
    simp only [build, hgiven, hneed, Outcome.ok_bind, h, hput]
    exact construct_eq_ok rfl
  | _ => cases hc

theorem savePart_batch (hc : isBatchClass c) (d : Document) :
    savePart c "source" d = .ok .null ∧ savePart c "tasks" d = d.save ∧
      savePart c "name" d = d.save := by
  cases c with
  | localBatch | remoteBatch => exact ⟨rfl, rfl, rfl⟩
  | _ => cases hc

theorem isDropped_batch (hc : isBatchClass c) (k : String) : isDropped c k = false := by
  cases c with
  | localBatch | remoteBatch => rfl
  | _ => cases hc

/-- A batch of tasks under distinct numbers can be written if all of its tasks can, and is read if
all of them are: the tasks keep their numbers and their order, and the batch its name. -/
theorem saved_batch (hc : isBatchClass c) (hkeys : (ts.map Prod.fst).Nodup) {g : τ → Fate}
    (h : ∀ p ∈ ts, (f p.2).Saved (g p.2)) (name : Option String) :
    (batch c f ts name).Saved (.all (ts.map fun p => g p.2)) := by
  have htasks : (numberedDocument f ts).Saved (.all (ts.map fun p => g p.2)) := by
    refine saved_list ?_
    rw [forall₂_map_left_iff, forall₂_map_right_iff, forall₂_same]
    intro p hp
    have hpair := saved_list (.cons (saved_int p.1) (.cons (h p hp) .nil))
    rwa [Fate.all_cons, Fate.all_cons, Fate.all_nil, Fate.and_unchanged,
      Fate.unchanged_and] at hpair
  have hordered : orderedPairs (numberedDocument f ts).reloaded =
      .ok (numberedDocument f ts).reloaded := by
    have hpairs := orderedPairs_numbered (ts.map fun p => (p.1, (f p.2).reloaded)) (by
      rwa [map_map])
    rw [reloaded_numberedDocument]
    rwa [map_map] at hpairs
  have hparts : PartsSaved c
      [("source", null), ("tasks", numberedDocument f ts), ("name", optionalText name)]
      [.unchanged, .all (ts.map fun p => g p.2), .unchanged]
      [("source", null), ("tasks", (numberedDocument f ts).reloaded),
        ("name", (optionalText name).reloaded)] := by
    refine .cons (isDropped_batch hc _) ?_ (.cons (isDropped_batch hc _) ?_
      (.cons (isDropped_batch hc _) ?_ .nil))
    · rw [(savePart_batch hc _).1]
      exact savedAs_ok rfl rfl
    · rwa [(savePart_batch hc _).2.1]
    · rw [(savePart_batch hc _).2.2]
      exact saved_optionalText name
  have htidy : Json.keysTidy ["source", "tasks", "name"] := by decide
  have hsaved := hparts.savedAs (r := true) htidy fun _ => build_batch hc hordered _ _
  rwa [Fate.all_cons, Fate.all_cons, Fate.all_cons, Fate.all_nil, Fate.and_unchanged,
    Fate.unchanged_and, Fate.and_unchanged, Bool.and_true] at hsaved

end Document

end AtomArray
