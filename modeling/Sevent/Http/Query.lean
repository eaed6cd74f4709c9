import Sevent.Http.Head

-- The query of a request target (sevent_http_parse.h). Pointers into the target are offsets and
-- lengths, NULL is `none`, and a name is what strlen sees of it.
namespace Sevent.Http

structure Split where
  path : Option Slice
  query : Option Slice
  deriving DecidableEq, Repr

def targetSplit (target : Option Bytes) : Split :=
  match target with
  | none => ⟨none, none⟩
  | some t =>
      match memchr 63 t with
      | none => ⟨some ⟨0, t.length⟩, none⟩
      | some q => ⟨some ⟨0, q⟩, some ⟨q + 1, t.length - q - 1⟩⟩

-- The segments from `p` to `fin`, each up to the next '&'.
def queryGetLoop (buf name : Bytes) (fin : Nat) : Nat → Nat → Option Slice
  | 0, _ => none
  | fuel + 1, p =>
      if p < fin then
        let q := p + (memchr 38 (Slice.of ⟨p, fin - p⟩ buf)).getD (fin - p)
        let next := if q < fin then q + 1 else q
        match memchr 61 (Slice.of ⟨p, q - p⟩ buf) with
        | none => queryGetLoop buf name fin fuel next
        | some eq =>
            if eq = name.length ∧ Slice.of ⟨p, name.length⟩ buf = name then
              some ⟨p + eq + 1, q - (p + eq) - 1⟩
            else queryGetLoop buf name fin fuel next
      else none

def queryGet (buf : Bytes) (query : Option Slice) (name : Option Bytes) : Option Slice :=
  match query, name with
  | some query, some name => queryGetLoop buf name (query.off + query.len) query.len query.off
  | _, _ => none

-- The parameter of a target, as the two functions are used together.
def queryParam (target name : Bytes) : Option Slice :=
  queryGet target (targetSplit (some target)).query (some name)

-- ---- what is looked for ----

-- A segment with a name, its first '=' and a value.
def IsParam (name seg value : Bytes) : Prop := seg = name ++ 61 :: value ∧ 61 ∉ name

-- The value of the first segment with the name.
def FirstParam (name : Bytes) (segs : List Bytes) (value : Bytes) : Prop :=
  ∃ before seg after, segs = before ++ seg :: after ∧ IsParam name seg value ∧
    ∀ s ∈ before, ∀ v, ¬ IsParam name s v

def NoParam (name : Bytes) (segs : List Bytes) : Prop := ∀ s ∈ segs, ∀ v, ¬ IsParam name s v

-- The segments of the text after the first '?'.
def segments (target : Bytes) : List Bytes :=
  match memchr 63 target with
  | none => []
  | some q => (target.drop (q + 1)).splitOn 38

theorem FirstParam.head {name seg value : Bytes} (h : IsParam name seg value) (segs : List Bytes) :
    FirstParam name (seg :: segs) value :=
  ⟨[], seg, segs, rfl, h, fun _ hs => absurd hs List.not_mem_nil⟩

theorem FirstParam.skip {name seg value : Bytes} {segs : List Bytes} (h : FirstParam name segs value)
    (hseg : ∀ v, ¬ IsParam name seg v) : FirstParam name (seg :: segs) value := by
  obtain ⟨before, found, after, rfl, hfound, hbefore⟩ := h
  exact ⟨seg :: before, found, after, rfl, hfound, List.forall_mem_cons.mpr ⟨hseg, hbefore⟩⟩

theorem NoParam.cons {name seg : Bytes} {segs : List Bytes} (h : NoParam name segs)
    (hseg : ∀ v, ¬ IsParam name seg v) : NoParam name (seg :: segs) :=
  List.forall_mem_cons.mpr ⟨hseg, h⟩

theorem FirstParam.not_none {name value : Bytes} {segs : List Bytes} (h : FirstParam name segs value) :
    ¬ NoParam name segs := by
  obtain ⟨before, seg, after, rfl, hseg, -⟩ := h
  exact fun hnone => hnone seg (List.mem_append_right before List.mem_cons_self) value hseg

-- A segment without '=' has no name.
theorem not_param_plain {seg : Bytes} (h : memchr 61 seg = none) (name v : Bytes) : ¬ IsParam name seg v := by
  rintro ⟨rfl, hname⟩
  rw [memchr_first hname] at h
  cases h

-- The name is what is before the first '='.
theorem isParam_iff {seg : Bytes} {eq : Nat} (h : memchr 61 seg = some eq) (name v : Bytes) :
    IsParam name seg v ↔ seg.take eq = name ∧ seg.drop (eq + 1) = v := by
  obtain ⟨hsplit, hnot, hlen⟩ := memchr_split h
  constructor
  · rintro ⟨hseg, hname⟩
    rw [hseg, memchr_first hname] at h
    obtain rfl := Option.some.inj h
    rw [hseg, List.take_left, ← List.drop_drop, List.drop_left]
    exact ⟨rfl, rfl⟩
  · rintro ⟨rfl, rfl⟩
    exact ⟨hsplit, hnot⟩

-- ---- the loop ----

theorem Slice.of_drop (buf : Bytes) (p n k : Nat) :
    (Slice.of ⟨p, n⟩ buf).drop k = Slice.of ⟨p + k, n - k⟩ buf := by
  rw [Slice.of, List.drop_take, List.drop_drop]
  rfl

theorem Slice.of_take (buf : Bytes) (p n k : Nat) (h : k ≤ n) :
    (Slice.of ⟨p, n⟩ buf).take k = Slice.of ⟨p, k⟩ buf := by
  rw [Slice.of, List.take_take, Nat.min_eq_left h]
  rfl

theorem Slice.of_length {buf : Bytes} {p n : Nat} (h : p + n ≤ buf.length) :
    (Slice.of ⟨p, n⟩ buf).length = n := by
  rw [Slice.of, List.length_take, List.length_drop]
  dsimp only
  omega

-- The segment at `p` and what is behind it.
theorem segment_split {buf : Bytes} {p fin : Nat} (hp : p < fin) (hfin : fin ≤ buf.length) :
    ∃ q, p + (memchr 38 (Slice.of ⟨p, fin - p⟩ buf)).getD (fin - p) = q ∧ p ≤ q ∧ q ≤ fin ∧
      (Slice.of ⟨p, fin - p⟩ buf).splitOn 38 = Slice.of ⟨p, q - p⟩ buf ::
        if q < fin then (Slice.of ⟨q + 1, fin - (q + 1)⟩ buf).splitOn 38 else [] := by
  have hlen : (Slice.of ⟨p, fin - p⟩ buf).length = fin - p := Slice.of_length (by omega)
  cases hamp : memchr 38 (Slice.of ⟨p, fin - p⟩ buf) with
  | none =>
      refine ⟨fin, by rw [Option.getD_none]; omega, Nat.le_of_lt hp, Nat.le_refl fin, ?_⟩
      have hno : 38 ∉ Slice.of ⟨p, fin - p⟩ buf := by
        intro hmem
        have hnone := List.findIdx?_eq_none_iff.mp hamp 38 hmem
        cases hnone
      rw [if_neg (Nat.lt_irrefl fin), List.splitOn_eq_singleton hno]
  | some i =>
      obtain ⟨hsplit, hno, hi⟩ := memchr_split hamp
      rw [List.length_take, hlen] at hi
      have hlt := memchr_bound hamp
      rw [hlen] at hlt
      refine ⟨p + i, by rw [Option.getD_some], Nat.le_add_right p i, by omega, ?_⟩
      have hbehind : fin - p - (i + 1) = fin - (p + i + 1) := by omega
      rw [if_pos (by omega), hsplit, List.splitOn_append_cons_self_of_not_mem hno, Slice.of_take buf p _ i (by omega),
        Slice.of_drop, hbehind, Nat.add_sub_cancel_left, Nat.add_assoc]

theorem queryGetLoop_spec {buf name : Bytes} {fin : Nat} (hfin : fin ≤ buf.length) (fuel p : Nat)
    (hp : p ≤ fin) (hfuel : fin - p ≤ fuel) :
    (∀ s, queryGetLoop buf name fin fuel p = some s → s.off + s.len ≤ fin ∧
        FirstParam name ((Slice.of ⟨p, fin - p⟩ buf).splitOn 38) (s.of buf)) ∧
      (queryGetLoop buf name fin fuel p = none → NoParam name ((Slice.of ⟨p, fin - p⟩ buf).splitOn 38)) := by
  -- at the end there is one empty segment
  have hend : ∀ p, p = fin → NoParam name ((Slice.of ⟨p, fin - p⟩ buf).splitOn 38) := by
    rintro p rfl
    have hnil : Slice.of ⟨p, p - p⟩ buf = [] := by rw [Nat.sub_self, Slice.of, List.take_zero]
    rw [hnil, List.splitOn_nil]
    exact List.forall_mem_singleton.mpr (not_param_plain rfl name)
  induction fuel generalizing p with
  | zero =>
      refine ⟨fun s hs => ?_, fun _ => hend p (by omega)⟩
      cases hs
  | succ fuel ih =>
      unfold queryGetLoop
      by_cases hlt : p < fin
      swap
      · rw [if_neg hlt]
        refine ⟨fun s hs => ?_, fun _ => hend p (by omega)⟩
        cases hs
      obtain ⟨q, hq, hpq, hqf, hsegs⟩ := segment_split hlt hfin
      rw [if_pos hlt, hq, hsegs]
      dsimp only
      have hseglen : (Slice.of ⟨p, q - p⟩ buf).length = q - p := Slice.of_length (by omega)
      -- what holds of the rest holds of the whole, unless this segment has the name
      have hnext : (∀ v, ¬ IsParam name (Slice.of ⟨p, q - p⟩ buf) v) →
          (∀ s, queryGetLoop buf name fin fuel (if q < fin then q + 1 else q) = some s → s.off + s.len ≤ fin ∧
              FirstParam name (Slice.of ⟨p, q - p⟩ buf ::
                if q < fin then (Slice.of ⟨q + 1, fin - (q + 1)⟩ buf).splitOn 38 else []) (s.of buf)) ∧
            (queryGetLoop buf name fin fuel (if q < fin then q + 1 else q) = none →
              NoParam name (Slice.of ⟨p, q - p⟩ buf ::
                if q < fin then (Slice.of ⟨q + 1, fin - (q + 1)⟩ buf).splitOn 38 else [])) := by
        intro hother
        by_cases hmore : q < fin
        · rw [if_pos hmore, if_pos hmore]
          obtain ⟨hsome, hnone⟩ := ih (q + 1) hmore (by omega)
          exact ⟨fun s hs => ⟨(hsome s hs).1, (hsome s hs).2.skip hother⟩, fun h => (hnone h).cons hother⟩
        · rw [if_neg hmore, if_neg hmore]
          have hstop : queryGetLoop buf name fin fuel q = none := by
            cases fuel with
            | zero => rfl
            | succ fuel => rw [queryGetLoop, if_neg hmore]
          rw [hstop]
          refine ⟨fun s hs => ?_, fun _ => List.forall_mem_singleton.mpr hother⟩
          cases hs
      cases heq : memchr 61 (Slice.of ⟨p, q - p⟩ buf) with
      | none => exact hnext (not_param_plain heq name)
      | some eq =>
          have hbound := memchr_bound heq
          rw [hseglen] at hbound
          have hname : (Slice.of ⟨p, q - p⟩ buf).take eq = Slice.of ⟨p, eq⟩ buf :=
            Slice.of_take buf p _ eq (Nat.le_of_lt hbound)
          have heqlen : (Slice.of ⟨p, eq⟩ buf).length = eq := Slice.of_length (by omega)
          by_cases hfound : eq = name.length ∧ Slice.of ⟨p, name.length⟩ buf = name
          · dsimp only
            rw [if_pos hfound]
            refine ⟨fun s hs => ?_, fun hs => by cases hs⟩
            obtain rfl := Option.some.inj hs
            refine ⟨by dsimp only; omega, .head ?_ _⟩
            refine (isParam_iff heq name _).mpr ⟨?_, ?_⟩
            · rw [hname, hfound.1]
              exact hfound.2
            · have hlen : q - p - (eq + 1) = q - (p + eq) - 1 := by omega
              rw [Slice.of_drop, hlen]
              rfl
          · dsimp only
            rw [if_neg hfound]
            refine hnext fun v hv => hfound ?_
            have hsame := ((isParam_iff heq name v).mp hv).1
            rw [hname] at hsame
            have hlen : eq = name.length := by rw [← hsame, heqlen]
            exact ⟨hlen, hlen ▸ hsame⟩

-- ---- the target ----

-- What sevent_http_target_split and sevent_http_query_get find in a target: its path and query,
-- and the value of the first parameter with the name, or none when there is none.
theorem query_lookup (target name : Bytes) :
    (63 ∉ target ∧ targetSplit (some target) = ⟨some ⟨0, target.length⟩, none⟩ ∨
      ∃ path query, target = path ++ 63 :: query ∧ 63 ∉ path ∧
        targetSplit (some target) = ⟨some ⟨0, path.length⟩, some ⟨path.length + 1, query.length⟩⟩) ∧
    (∀ s, queryParam target name = some s →
      s.off + s.len ≤ target.length ∧ FirstParam name (segments target) (s.of target)) ∧
    (queryParam target name = none ↔ NoParam name (segments target)) := by
  unfold queryParam targetSplit segments
  dsimp only
  cases hmark : memchr 63 target with
  | none =>
      have hno : 63 ∉ target := by
        intro hmem
        have hnone := List.findIdx?_eq_none_iff.mp hmark 63 hmem
        cases hnone
      dsimp only
      refine ⟨.inl ⟨hno, rfl⟩, fun s hs => ?_, iff_of_true rfl fun s hs => absurd hs List.not_mem_nil⟩
      cases hs
  | some q =>
      obtain ⟨hsplit, hno, hlen⟩ := memchr_split hmark
      have hbound := memchr_bound hmark
      have hrest : (target.drop (q + 1)).length = target.length - q - 1 := by
        rw [List.length_drop]
        omega
      have hfin : q + 1 + (target.length - q - 1) = target.length := by omega
      have htext : Slice.of ⟨q + 1, target.length - (q + 1)⟩ target = target.drop (q + 1) :=
        List.take_of_length_le (by rw [List.length_drop])
      refine ⟨.inr ⟨target.take q, target.drop (q + 1), hsplit, hno, by rw [hlen, hrest]⟩, ?_⟩
      unfold queryGet
      dsimp only
      rw [hfin]
      obtain ⟨hsome, hnone⟩ := @queryGetLoop_spec target name target.length (Nat.le_refl target.length)
        (target.length - q - 1) (q + 1) hbound (by omega)
      rw [htext] at hsome hnone
      refine ⟨hsome, hnone, fun h => ?_⟩
      by_contra hne
      obtain ⟨s, hs⟩ := Option.ne_none_iff_exists'.mp hne
      exact (hsome s hs).2.not_none h

end Sevent.Http
