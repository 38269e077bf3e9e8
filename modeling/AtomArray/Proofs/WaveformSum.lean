import AtomArray.Proofs.Lasting

/-!
Canonical forms and sums of waveforms.

`Waveform.Follows env env' times w w'` says that `w'` in `env'` takes the time that `w` takes in
`env`, and has its values at the given times. With one environment for both it gives:

* `Waveform.Lasting.follows_of_same`: waveforms that compare as equal do the same at every time;
* `Waveform.Lasting.canonFollows`: the canonical form does the same at every time after the start,
  where a join evaluates its first piece even if that takes no time;
* `Waveform.Lasting.plus_keeps`: the sum of two waveforms adds their values after the start.
-/

namespace AtomArray

open List Outcome Exact Bool

namespace Waveform

variable {env env' : Env Rat} {w w' : Waveform Rat} {vs ws ws' : List (Waveform Rat)}
  {c d e t v : Rat}

/-! ### Waveforms that do the same -/

/-- Wherever `w` has a value at one of the times, `w'` has it too, and it takes the same time. The
two are evaluated in environments of their own. -/
structure Follows (env env' : Env Rat) (times : Set Rat) (w w' : Waveform Rat) : Prop where
  lasting : Lasting env' w'
  length : ∀ d, w.length env = .ok d → w'.length env' = .ok d
  value : ∀ t ∈ times, ∀ v, w.eval env t = .ok v → w'.eval env' t = .ok v

variable {times : Set Rat}

theorem Follows.refl (h : Lasting env w) : Follows env env times w w :=
  ⟨h, fun _ hd => hd, fun _ _ _ hv => hv⟩

theorem totalLength_follows (h : Forall₂ (Follows env env' times) ws ws')
    (he : totalLength env ws = .ok e) : totalLength env' ws' = .ok e := by
  induction h generalizing e with
  | nil => exact he
  | cons hw _ ih =>
    obtain ⟨x, y, hx, hy, rfl⟩ := totalLength_cons.mp he
    exact totalLength_cons.mpr ⟨x, y, hw.length x hx, ih hy, rfl⟩

theorem lasting_of_follows (h : Forall₂ (Follows env env' times) ws ws') :
    ∀ w ∈ ws', Lasting env' w := by
  induction h with
  | nil => simp
  | cons hw _ ih => exact forall_mem_cons.mpr ⟨hw.lasting, ih⟩

/-- Pieces that do the same give a join that does the same. The first piece is evaluated at the
time since the start, every later one at a positive time. -/
theorem evalPieces_follows (hpos : ∀ x, 0 < x → x ∈ times)
    (h : Forall₂ (Follows env env' times) ws ws') (hlast : ∀ w ∈ ws, Lasting env w)
    (hct : t - c ∈ times) (hv : evalPieces env ws c t = .ok v) :
    evalPieces env' ws' c t = .ok v := by
  induction h generalizing c with
  | nil => exact hv
  | @cons w w' ws ws' hw _ ih =>
    obtain ⟨d, -, hd⟩ := (hlast w mem_cons_self).exists_length
    simp only [evalPieces, hd, hw.length d hd, ok_bind, add_eq, le_eq,
      decide_eq_true_eq, sub_eq] at hv ⊢
    split
    · rename_i hle
      rw [if_pos hle] at hv
      exact hw.value _ hct v hv
    · rename_i hle
      rw [if_neg hle] at hv
      exact ih (fun u hu => hlast u (mem_cons_of_mem _ hu)) (hpos _ (by linarith)) hv

theorem Follows.append (hpos : ∀ x, 0 < x → x ∈ times)
    (h : Forall₂ (Follows env env' times) ws ws') (hlast : ∀ w ∈ ws, Lasting env w) :
    Follows env env' times (.append ws) (.append ws') := by
  obtain ⟨e, -, he⟩ := exists_totalLength fun w hw => (hlast w hw).exists_length
  refine ⟨.append (lasting_of_follows h), fun d hd => ?_, fun t ht v hv => ?_⟩
  · obtain rfl : e = d := by simpa [length_append he] using hd
    exact length_append (totalLength_follows h he)
  · rw [eval, zero_eq] at hv ⊢
    exact evalPieces_follows hpos h hlast (by rwa [sub_zero]) hv

theorem Follows.neg (h : Follows env env' times w w') :
    Follows env env' times (.neg w) (.neg w') := by
  refine ⟨.neg h.lasting, h.length, fun t ht v hv => ?_⟩
  obtain ⟨x, hx, rfl⟩ := eval_neg.mp hv
  exact eval_neg.mpr ⟨x, h.value t ht x hx, rfl⟩

theorem Follows.scale {s s' : Scalar Rat} (hs : s.Follows env env' s')
    (h : Follows env env' times w w') : Follows env env' times (.scale s w) (.scale s' w') := by
  refine ⟨.scale h.lasting, h.length, fun t ht v hv => ?_⟩
  obtain ⟨f, x, hf, hx, rfl⟩ := eval_scale.mp hv
  exact eval_scale.mpr ⟨f, x, hs f hf, h.value t ht x hx, rfl⟩

theorem Follows.record {n n' : String} (h : Follows env env' times w w') :
    Follows env env' times (.record w n) (.record w' n') :=
  ⟨.record h.lasting, h.length, fun t ht v hv =>
    eval_record.mpr (h.value t ht v (eval_record.mp hv))⟩

theorem Follows.add {a a' b b' : Waveform Rat} (ha : Lasting env a) (hb : Lasting env b)
    (hfa : Follows env env' times a a') (hfb : Follows env env' times b b') :
    Follows env env' times (.add a b) (.add a' b') := by
  obtain ⟨x, -, hx⟩ := ha.exists_length
  obtain ⟨y, -, hy⟩ := hb.exists_length
  refine ⟨.add hfa.lasting hfb.lasting, fun d hd => ?_, fun t ht v hv => ?_⟩
  · rw [length_add hx hy] at hd
    rw [length_add (hfa.length x hx) (hfb.length y hy), hd]
  · obtain ⟨l, r, hl, hr, rfl⟩ := eval_add.mp hv
    exact eval_add.mpr ⟨l, r, hfa.value t ht l hl, hfb.value t ht r hr, rfl⟩

theorem Follows.slice {i i' : Interval Rat} (hstart : Scalar.BoundFollows env env' i.start i'.start)
    (hstop : Scalar.BoundFollows env env' i.stop i'.stop) (hw : Lasting env (.slice w i))
    (h : Follows env env' Set.univ w w') :
    Follows env env' Set.univ (.slice w i) (.slice w' i') := by
  have hlength : ∀ d, (Waveform.slice w i).length env = .ok d →
      (Waveform.slice w' i').length env' = .ok d := by
    intro d hd
    obtain ⟨hbound, whole, a, b, hwhole, ha, hb, hcut⟩ := length_slice.mp hd
    rw [hstart.1, hstop.1] at hbound
    exact length_slice.mpr
      ⟨hbound, whole, a, b, h.length whole hwhole, hstart.2 a ha, hstop.2 b hb, hcut⟩
  obtain ⟨x, -, hx⟩ := hw.exists_length
  refine ⟨.slice h.lasting (hlength x hx), hlength, fun t _ v hv => ?_⟩
  obtain ⟨d, hd, hv⟩ := eval_slice.mp hv
  refine eval_slice.mpr ⟨d, hlength d hd, ?_⟩
  split at hv
  · rwa [if_pos ‹_›]
  · obtain ⟨a, ha, hv⟩ := hv
    rw [if_neg ‹_›]
    exact ⟨a, hstart.2 a ha, h.value _ (Set.mem_univ _) v hv⟩

theorem Follows.sample {i : Interpolation} {dt dt' : Scalar Rat} (hdt : dt.Follows env env' dt')
    (hw : Lasting env w) (h : Follows env env' Set.univ w w') :
    Follows env env' Set.univ (.sample w i dt) (.sample w' i dt') := by
  obtain ⟨d, -, hd⟩ := hw.exists_length
  refine ⟨.sample h.lasting, h.length, fun t _ v hv => ?_⟩
  simp only [eval, hd, h.length d hd, ok_bind, bind_eq_ok] at hv ⊢
  obtain ⟨x, hx, last, hlast, grid, hgrid, values, hvalues, hv⟩ := hv
  refine ⟨x, hdt x hx, last, hlast, grid, hgrid, values, ?_, hv⟩
  rw [mapM_eq_ok_iff] at hvalues ⊢
  exact hvalues.imp fun y u hu => h.value y (Set.mem_univ y) u hu

theorem sameList_eq_true {α : Type} {f : α → α → Bool} {xs ys : List α} :
    sameList f xs ys ↔ Forall₂ (fun x y => f x y) xs ys := by
  induction xs generalizing ys with
  | nil => cases ys <;> simp [sameList]
  | cons x xs ih => cases ys <;> simp [sameList, ih]

theorem sameAll_eq_true {ws ws' : List (Waveform Rat)} :
    sameAll ws ws' ↔ Forall₂ (fun w w' => w.same w') ws ws' := by
  induction ws generalizing ws' with
  | nil => cases ws' <;> simp [sameAll]
  | cons w ws ih => cases ws' <;> simp [sameAll, ih]

theorem polyValue_follows {cs cs' : List (Scalar Rat)} {acc power : Rat}
    (h : Forall₂ (Scalar.Follows env env') cs cs')
    (hv : polyValue env t acc power cs = .ok v) : polyValue env' t acc power cs' = .ok v := by
  induction h generalizing acc power with
  | nil => exact hv
  | cons hc _ ih =>
    simp only [polyValue, bind_eq_ok, mul_eq, add_eq, ok_bind] at hv ⊢
    obtain ⟨x, hx, hv⟩ := hv
    exact ⟨x, hc x hx, ih hv⟩

theorem eq_of_sameList {α : Type} {f : α → α → Bool} {xs ys : List α}
    (hf : ∀ x ∈ xs, ∀ y, f x y → x = y) (h : sameList f xs ys) : xs = ys := by
  rw [sameList_eq_true] at h
  induction h with
  | nil => rfl
  | @cons x y xs ys hxy _ ih =>
    rw [hf x mem_cons_self y hxy, ih fun z hz => hf z (mem_cons_of_mem _ hz)]

section Instructions

variable {a a' b b' s s' : Scalar Rat} {cs cs' : List (Scalar Rat)} {x : Rat}

theorem Follows.linear (ha : a.Follows env env' a') (hb : b.Follows env env' b')
    (hs : s.Follows env env' s') (hd : s.eval env = .ok x) (h0 : 0 ≤ x) :
    Follows env env' times (.linear a b s) (.linear a' b' s') := by
  refine ⟨.linear (hs x hd) h0, fun d => ?_, fun t _ v hv => ?_⟩
  · simpa [Waveform.length, duration] using hs d
  · obtain ⟨y, z, d, hy, hz, hd, hv⟩ := eval_linear.mp hv
    exact eval_linear.mpr ⟨y, z, d, ha y hy, hb z hz, hs d hd, hv⟩

theorem Follows.constant (ha : a.Follows env env' a') (hs : s.Follows env env' s')
    (hd : s.eval env = .ok x) (h0 : 0 ≤ x) :
    Follows env env' times (.constant a s) (.constant a' s') := by
  refine ⟨.constant (hs x hd) h0, fun d => ?_, fun t _ v hv => ?_⟩
  · simpa [Waveform.length, duration] using hs d
  · obtain ⟨y, d, hy, hd, hv⟩ := eval_constant.mp hv
    exact eval_constant.mpr ⟨y, d, ha y hy, hs d hd, hv⟩

theorem Follows.poly (hcs : Forall₂ (Scalar.Follows env env') cs cs')
    (hs : s.Follows env env' s') (hd : s.eval env = .ok x) (h0 : 0 ≤ x) :
    Follows env env' times (.poly cs s) (.poly cs' s') := by
  refine ⟨.poly (hs x hd) h0, fun d => ?_, fun t _ v hv => ?_⟩
  · simpa [Waveform.length, duration] using hs d
  · obtain ⟨d, hd, hv⟩ := eval_poly.mp hv
    refine eval_poly.mpr ⟨d, hs d hd, ?_⟩
    split at hv
    · rwa [if_pos ‹_›]
    · rw [if_neg ‹_›]
      exact polyValue_follows hcs hv

/-- The parameters and defaults of a profile are names and numbers, which compare as equal only
when they are the same. -/
theorem Follows.profile {fn : Profile} {ps : List (Scalar Rat)} {defaults : List (String × Rat)}
    (hs : ∀ env, s.Alike env s') (hd : s.eval env = .ok x)
    (hd' : s.eval (Env.extend (defaults.map fun kv => (kv.1, Param.number kv.2)) env) = .ok x)
    (h0 : 0 ≤ x) (hps : ∀ p ∈ ps, p.IsName) :
    Follows env env times (.profile fn s ps defaults) (.profile fn s' ps defaults) := by
  refine ⟨.profile ((hs env x).mp hd) ((hs _ x).mp hd') h0 hps, fun d => ?_, fun t _ v => ?_⟩
  · simpa only [Waveform.length, duration, ok_bind] using (hs env d).mp
  · simp only [eval, hd', (hs _ x).mp hd', imp_self]

end Instructions

/-- **Waveforms that compare as equal do the same** at every time. -/
theorem Lasting.follows_of_same (h : Lasting env w) :
    ∀ w', w.same w' → Follows env env Set.univ w w' := by
  induction h
  -- Only waveforms of one kind compare as equal.
  all_goals
    intro w' h
    cases w' <;> first | (simp [same] at h; done) | skip
  case linear.linear hd h0 _ _ _ =>
    simp only [same, and_eq_true] at h
    exact .linear (Scalar.follows_of_same h.1.1) (Scalar.follows_of_same h.1.2)
      (Scalar.follows_of_same h.2) hd h0
  case constant.constant hd h0 _ _ =>
    simp only [same, and_eq_true] at h
    exact .constant (Scalar.follows_of_same h.1) (Scalar.follows_of_same h.2) hd h0
  case poly.poly hd h0 _ _ =>
    simp only [same, and_eq_true, sameList_eq_true] at h
    exact .poly (h.1.imp fun _ _ => Scalar.follows_of_same) (Scalar.follows_of_same h.2) hd h0
  case profile.profile hd hd' h0 hps _ _ _ _ =>
    simp only [same, and_eq_true, beq_iff_eq] at h
    obtain ⟨⟨⟨rfl, hs⟩, hps'⟩, hdefaults⟩ := h
    obtain rfl := eq_of_sameList (fun p hp q => (hps p hp).eq_of_same) hps'
    obtain rfl := eq_of_sameList (fun p _ q hpq => by simpa [Prod.ext_iff] using hpq) hdefaults
    exact .profile (fun _ => Scalar.alike_of_same _ _ hs) hd hd' h0 hps
  case smooth.smooth ih _ _ _ =>
    simp only [same, and_eq_true] at h
    have hu := ih _ h.2
    exact ⟨.smooth hu.lasting, hu.length, fun t _ v hv => absurd hv eval_smooth_ne_ok⟩
  case slice.slice hu hlen ih _ _ =>
    simp only [same, Interval.same, and_eq_true] at h
    exact .slice (Scalar.boundFollows_of_sameBound h.2.1) (Scalar.boundFollows_of_sameBound h.2.2)
      (.slice hu hlen) (ih _ h.1)
  case append.append ws hws ih us =>
    simp only [same, sameAll_eq_true] at h
    have hfollows : Forall₂ (Follows env env Set.univ) ws us :=
      ((forall₂_and_left ws us).mpr ⟨ih, h⟩).imp fun w w' hw => hw.1 w' hw.2
    exact .append (fun _ _ => Set.mem_univ _) hfollows hws
  case neg.neg ih _ => exact (ih _ (by simpa [same] using h)).neg
  case scale.scale ih _ _ =>
    simp only [same, and_eq_true] at h
    exact .scale (Scalar.follows_of_same h.1) (ih _ h.2)
  case add.add ha hb iha ihb _ _ =>
    simp only [same, and_eq_true] at h
    exact .add ha hb (iha _ h.1) (ihb _ h.2)
  case record.record ih _ _ =>
    simp only [same, and_eq_true] at h
    exact (ih _ h.1).record
  case sample.sample hu ih _ _ _ =>
    simp only [same, and_eq_true, beq_iff_eq] at h
    obtain ⟨⟨hu', rfl⟩, hdt⟩ := h
    exact .sample (Scalar.follows_of_same hdt) hu (ih _ hu')
  case aligned.aligned ih _ _ _ =>
    simp only [same, and_eq_true] at h
    have hu := ih _ h.1.1
    exact ⟨.aligned hu.lasting, hu.length, fun t _ v hv => by simp [eval] at hv⟩

/-! ### Canonical form -/

/-- The waveforms that a piece of a join is replaced by. -/
def pieces {N : Type} : Waveform N → List (Waveform N)
  | append vs => vs
  | w => [w]

section

variable {N : Type} [Arith N] {ws : List (Waveform N)}

theorem canonAll_eq_mapM : canonAll ws = ws.mapM canon := by
  induction ws with
  | nil => rfl
  | cons w ws ih => rw [canonAll, ih, mapM_cons]

theorem canonPieces_eq_canonAll : canonPieces ws = canonAll (ws.flatMap pieces) := by
  simp only [canonAll_eq_mapM]
  induction ws with
  | nil => rfl
  | cons w ws ih =>
    cases w with
    | append vs => simp [canonPieces, canonAll_eq_mapM, ih, pieces]
    | _ => simp [canonPieces, ih, pieces]

omit [Arith N] in
theorem pieces_cases (w : Waveform N) : (∃ vs, w = append vs) ∨ w.pieces = [w] := by
  cases w with
  | append vs => exact .inl ⟨vs, rfl⟩
  | _ => exact .inr rfl

end

/-- What a join is worth depends on the time since its start only. -/
theorem evalPieces_shift (s : Rat) : evalPieces env ws (c + s) (t + s) = evalPieces env ws c t := by
  induction ws generalizing c with
  | nil => rfl
  | cons w ws ih =>
    cases hx : w.length env with
    | error f => simp [evalPieces, hx]
    | ok x =>
      simp [evalPieces, hx, add_right_comm c s x, ih]

/-- In a row of pieces the first ones count until they are over. -/
theorem evalPieces_append (h : totalLength env vs = .ok e) (hvs : ∀ w ∈ vs, Lasting env w)
    (hct : c < t) :
    evalPieces env (vs ++ ws) c t =
      if t ≤ c + e then evalPieces env vs c t else evalPieces env ws (c + e) t := by
  induction vs generalizing c e with
  | nil =>
    obtain rfl := sumOf_nil.mp h
    simp [hct]
  | cons w vs ih =>
    obtain ⟨x, y, hx, hy, rfl⟩ := totalLength_cons.mp h
    have hrest : ∀ u ∈ vs, Lasting env u := fun u hu => hvs u (mem_cons_of_mem _ hu)
    have hy0 := totalLength_nonneg hrest hy
    simp only [cons_append, evalPieces, hx, ok_bind, add_eq, le_eq, decide_eq_true_eq]
    by_cases hle : t ≤ c + x
    · rw [if_pos hle, if_pos hle, if_pos (by linarith)]
    · rw [if_neg hle, if_neg hle, ih hy hrest (not_le.mp hle), add_assoc]

theorem lasting_pieces (hw : Lasting env w) : ∀ u ∈ w.pieces, Lasting env u := by
  cases hw with
  | append hvs => exact hvs
  | _ => simp only [pieces, mem_singleton, forall_eq]; constructor <;> assumption

theorem totalLength_pieces (hw : Lasting env w) (hd : w.length env = .ok d) :
    totalLength env w.pieces = .ok d := by
  rcases pieces_cases w with ⟨vs, rfl⟩ | hone
  · obtain ⟨e, -, he⟩ := exists_totalLength fun u hu => (lasting_pieces hw u hu).exists_length
    rw [he, ← length_append he]
    exact hd
  · rw [hone, totalLength_cons]
    exact ⟨d, 0, hd, rfl, (add_zero d).symm⟩

theorem evalPieces_pieces (hw : Lasting env w) (hd : w.length env = .ok d) (ht : t ≤ c + d) :
    evalPieces env w.pieces c t = w.eval env (t - c) := by
  rcases pieces_cases w with ⟨vs, rfl⟩ | hone
  · have hshift := @evalPieces_shift env vs 0 (t - c) c
    rwa [zero_add, sub_add_cancel] at hshift
  · simp [hone, evalPieces, hd, ht]

/-- Taking joins inside a join apart changes no value after its start. -/
theorem evalPieces_flatMap_pieces (hws : ∀ w ∈ ws, Lasting env w) (hct : c < t) :
    evalPieces env (ws.flatMap pieces) c t = evalPieces env ws c t := by
  induction ws generalizing c with
  | nil => rfl
  | cons w ws ih =>
    obtain ⟨hw, hrest⟩ := forall_mem_cons.mp hws
    obtain ⟨d, -, hd⟩ := hw.exists_length
    rw [flatMap_cons, evalPieces_append (totalLength_pieces hw hd) (lasting_pieces hw) hct]
    simp only [evalPieces, hd, ok_bind, add_eq, le_eq, sub_eq, decide_eq_true_eq]
    by_cases hle : t ≤ c + d
    · rw [if_pos hle, if_pos hle, evalPieces_pieces hw hd hle]
    · rw [if_neg hle, if_neg hle, ih hrest (not_le.mp hle)]

theorem totalLength_flatMap_pieces (hws : ∀ w ∈ ws, Lasting env w)
    (he : totalLength env ws = .ok e) : totalLength env (ws.flatMap pieces) = .ok e := by
  induction ws generalizing e with
  | nil => exact he
  | cons w ws ih =>
    obtain ⟨hw, hrest⟩ := forall_mem_cons.mp hws
    obtain ⟨x, y, hx, hy, rfl⟩ := totalLength_cons.mp he
    exact sumOf_append.mpr ⟨x, y, totalLength_pieces hw hx, ih hrest hy, rfl⟩

theorem follows_flatMap_pieces (hws : ∀ w ∈ ws, Lasting env w) :
    Follows env env (Set.Ioi 0) (.append ws) (.append (ws.flatMap pieces)) := by
  obtain ⟨e, -, he⟩ := exists_totalLength fun w hw => (hws w hw).exists_length
  refine ⟨.append fun u hu => ?_, fun d hd => ?_, fun t ht v hv => ?_⟩
  · obtain ⟨w, hw, hu⟩ := mem_flatMap.mp hu
    exact lasting_pieces (hws w hw) u hu
  · rw [length_append (totalLength_flatMap_pieces hws he), ← hd, length_append he]
  · rw [eval, zero_eq] at hv ⊢
    rwa [evalPieces_flatMap_pieces hws ht]

theorem Follows.trans {w'' : Waveform Rat} {times' : Set Rat} (h : Follows env env' times w w')
    (h' : Follows env' env' times' w' w'') (htimes : times' ⊆ times) :
    Follows env env' times' w w'' :=
  ⟨h'.lasting, fun d hd => h'.length d (h.length d hd),
    fun t ht v hv => h'.value t ht v (h.value t (htimes ht) v hv)⟩

/-- A waveform has a canonical form, which does the same after the start. -/
def CanonFollows (env : Env Rat) (w : Waveform Rat) : Prop :=
  ∃ w', w.canon = .ok w' ∧ Follows env env (Set.Ioi 0) w w'

theorem canonFollows_append (hws : ∀ w ∈ ws, Lasting env w)
    (h : ∀ w ∈ ws, ∀ u ∈ w.pieces, CanonFollows env u) : CanonFollows env (.append ws) := by
  have hparts : ∀ u ∈ ws.flatMap pieces, CanonFollows env u := fun u hu => by
    obtain ⟨w, hw, hu⟩ := mem_flatMap.mp hu
    exact h w hw u hu
  have hflat := follows_flatMap_pieces hws
  obtain ⟨us, hus, hfollows⟩ := exists_mapM_eq_ok hparts
  refine ⟨.append us, ?_, hflat.trans (.append (fun _ => id) hfollows ?_) subset_rfl⟩
  · rw [canon, canonPieces_eq_canonAll, canonAll_eq_mapM, hus]
    rfl
  · cases hflat.lasting with
    | append hall => exact hall

@[simp] theorem eval_const_two : (Scalar.const 2 : Scalar Rat).eval env = .ok 2 := by
  have : (Arith.ofDecimal 2 : Rat) = 2 := by with_unfolding_all rfl
  simp [Scalar.const, Scalar.eval, this]

theorem length_of_same_zero {s : Scalar Rat} (hs : w.duration = .ok s)
    (h : s.same (.const 0)) : w.length env = .ok 0 := by
  refine length_of_duration hs ((Scalar.alike_of_same _ _ h 0).mpr ?_)
  simp [Scalar.const, Scalar.eval]

variable {a b l r : Waveform Rat}

/-- If the canonical form takes no time, neither does the waveform. -/
theorem length_of_canon_zero {s : Scalar Rat} (ha : Lasting env a) (hal : Follows env env times a l)
    (hs : l.duration = .ok s) (h0 : s.same (.const 0)) : a.length env = .ok 0 := by
  obtain ⟨x, -, hx⟩ := ha.exists_length
  have hl0 : l.length env = .ok 0 := length_of_same_zero hs h0
  obtain rfl : x = 0 := by simpa [hal.length x hx] using hl0
  exact hx

section

variable (ha : Lasting env a) (hb : Lasting env b)

include ha hb

theorem follows_double (hal : Follows env env times a l) (hbr : Follows env env times b r)
    (hlr : l.same r) :
    Follows env env times (.add a b) (.scale (.const 2) l) := by
  have hsame := hal.lasting.follows_of_same r hlr
  obtain ⟨x, -, hx⟩ := ha.exists_length
  obtain ⟨y, -, hy⟩ := hb.exists_length
  refine ⟨.scale hal.lasting, fun d hd => ?_, fun t ht v hv => ?_⟩
  · have hyx : y = x := by simpa [hbr.length y hy] using hsame.length x (hal.length x hx)
    rw [length_add hx hy, hyx, max_self] at hd
    exact hal.length d (hx.trans hd)
  · obtain ⟨p, q, hp, hq, rfl⟩ := eval_add.mp hv
    have hlp := hal.value t ht p hp
    have hqp : q = p := by
      simpa [hbr.value t ht q hq] using hsame.value t (Set.mem_univ t) p hlp
    exact eval_scale.mpr ⟨2, p, eval_const_two, hlp, by rw [hqp, two_mul]⟩

theorem follows_right (ha0 : a.length env = .ok 0)
    (hbr : Follows env env (Set.Ioi 0) b r) : Follows env env (Set.Ioi 0) (.add a b) r := by
  obtain ⟨y, hy0, hy⟩ := hb.exists_length
  refine ⟨hbr.lasting, fun d hd => ?_, fun t ht v hv => ?_⟩
  · rw [length_add ha0 hy, max_eq_right hy0] at hd
    exact hbr.length d (hy.trans hd)
  · obtain ⟨p, q, hp, hq, rfl⟩ := eval_add.mp hv
    rw [ha.eval_after ha0 ht hp, zero_add]
    exact hbr.value t ht q hq

theorem follows_left (hal : Follows env env (Set.Ioi 0) a l)
    (hb0 : b.length env = .ok 0) : Follows env env (Set.Ioi 0) (.add a b) l := by
  obtain ⟨x, hx0, hx⟩ := ha.exists_length
  refine ⟨hal.lasting, fun d hd => ?_, fun t ht v hv => ?_⟩
  · rw [length_add hx hb0, max_eq_left hx0] at hd
    exact hal.length d (hx.trans hd)
  · obtain ⟨p, q, hp, hq, rfl⟩ := eval_add.mp hv
    rw [hb.eval_after hb0 ht hq, add_zero]
    exact hal.value t ht p hp

theorem canonFollows_add (hca : CanonFollows env a) (hcb : CanonFollows env b) : CanonFollows env (.add a b) := by
  obtain ⟨l, hl, hal⟩ := hca
  obtain ⟨r, hr, hbr⟩ := hcb
  obtain ⟨x, -, hx⟩ := hal.lasting.exists_length
  obtain ⟨y, -, hy⟩ := hbr.lasting.exists_length
  obtain ⟨s, hs, -⟩ := length_eq_ok.mp hx
  obtain ⟨u, hu, -⟩ := length_eq_ok.mp hy
  simp only [CanonFollows, canon, hl, hr, hs, hu, ok_bind, pure_eq_ok]
  by_cases hlr : l.same r
  · rw [if_pos hlr]
    exact ⟨_, rfl, follows_double ha hb hal hbr hlr⟩
  rw [if_neg hlr]
  by_cases hs0 : s.same (.const 0)
  · rw [if_pos hs0]
    exact ⟨_, rfl, follows_right ha hb (length_of_canon_zero ha hal hs hs0) hbr⟩
  rw [if_neg hs0]
  by_cases hu0 : u.same (.const 0)
  · rw [if_pos hu0]
    exact ⟨_, rfl, follows_left ha hb hal (length_of_canon_zero hb hbr hu hu0)⟩
  rw [if_neg hu0]
  exact ⟨_, rfl, .refl (.add ha hb)⟩

end

theorem canonFollows_self (h : Lasting env w) (hcanon : w.canon = .ok w) (hone : w.pieces = [w]) :
    CanonFollows env w ∧ ∀ u ∈ w.pieces, CanonFollows env u := by
  have hself : CanonFollows env w := ⟨w, hcanon, .refl h⟩
  exact ⟨hself, by simpa [hone] using hself⟩

/-- **Canonical form keeps a waveform**: it takes the same time and has the same values after the
start. -/
theorem Lasting.canonFollows (h : Lasting env w) : CanonFollows env w := by
  -- A join inside a join is taken apart, so the induction carries the pieces of a piece along.
  suffices h : CanonFollows env w ∧ ∀ u ∈ w.pieces, CanonFollows env u from h.1
  induction h with
  | append hws ih =>
    exact ⟨canonFollows_append hws fun w hw => (ih w hw).2, fun w hw => (ih w hw).1⟩
  | add ha hb iha ihb =>
    have hsum := canonFollows_add ha hb iha.1 ihb.1
    exact ⟨hsum, by simpa [pieces] using hsum⟩
  -- The others are canonical.
  | _ => exact canonFollows_self (by constructor <;> assumption) rfl rfl

/-- **The sum of two waveforms adds their values** after the start. -/
theorem Lasting.plus_keeps (ha : Lasting env a) (hb : Lasting env b) :
    ∃ w, a.plus b = .ok w ∧ Lasting env w ∧ ∀ t > 0, ∀ x y, a.eval env t = .ok x →
      b.eval env t = .ok y → w.eval env t = .ok (x + y) := by
  obtain ⟨w, hw, hfollows⟩ := (Lasting.add ha hb).canonFollows
  exact ⟨w, hw, hfollows.lasting, fun t ht x y hx hy =>
    hfollows.value t ht _ (eval_add.mpr ⟨x, y, hx, hy, rfl⟩)⟩

end Waveform

end AtomArray
