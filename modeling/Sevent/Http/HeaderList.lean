import Sevent.Http.Reparse

-- The header list of a response: how the helper functions edit it, and in which order it is sent.
namespace Sevent.Http

-- ---- the helper functions ----

-- Which of the allocations of a call succeed.
structure HeaderMem where
  name : Bool
  value : Bool
  node : Bool
  deriving DecidableEq, Repr

-- The first field of exactly this name gets the value.
def overwrite (name value : Bytes) : List Header → Option (List Header)
  | [] => none
  | h :: rest =>
      if h.name = some name then some ({ h with value := some value } :: rest)
      else (overwrite name value rest).map (h :: ·)

def responseHeaderAddNode (mem : HeaderMem) (resp : Response) (name value : Option Bytes) (dedup : Bool) :
    Int × Response :=
  match name, value with
  | some name, some value =>
      if !mem.name || !mem.value then (Err.nomem, resp)
      else
        match if dedup then overwrite name value resp.headers else none with
        | some headers => (Err.success, { resp with headers := headers })
        | none =>
            if !mem.node then (Err.nomem, resp)
            else
              (Err.success, { resp with headers := { name := some name, value := some value } :: resp.headers })
  | _, _ => (Err.inval, resp)

def responseHeaderSet (mem : HeaderMem) (resp : Response) (name value : Option Bytes) : Int × Response :=
  responseHeaderAddNode mem resp name value true

def responseHeaderAdd (mem : HeaderMem) (resp : Response) (name value : Option Bytes) : Int × Response :=
  responseHeaderAddNode mem resp name value false

-- The number of fields removed, and the rest.
def unlinkNamed (name : Bytes) : List Header → Nat × List Header
  | [] => (0, [])
  | h :: rest =>
      let (count, kept) := unlinkNamed name rest
      if h.name = some name then (count + 1, kept) else (count, h :: kept)

def responseHeaderDel (resp : Response) (name : Option Bytes) : Int × Response :=
  match name with
  | none => (0, resp)
  | some name =>
      let (count, kept) := unlinkNamed name resp.headers
      (count, { resp with headers := kept })

def responseClear (resp : Response) : Response := { resp with headers := [] }

def responseInit : Response :=
  { status := 0, text := none, close := false, body := none, bodyLen := 0, headers := [] }

-- ---- runs of the helpers ----

inductive HeaderOp where
  | set (name value : Bytes)
  | add (name value : Bytes)
  | del (name : Bytes)
  | clear
  deriving DecidableEq, Repr

-- Every allocation succeeds.
def HeaderOp.apply (resp : Response) : HeaderOp → Int × Response
  | .set name value => responseHeaderSet ⟨true, true, true⟩ resp (some name) (some value)
  | .add name value => responseHeaderAdd ⟨true, true, true⟩ resp (some name) (some value)
  | .del name => responseHeaderDel resp (some name)
  | .clear => (Err.success, responseClear resp)

def Response.edit (resp : Response) (ops : List HeaderOp) : Response :=
  ops.foldl (fun r op => (op.apply r).2) resp

def Response.fields (resp : Response) : List (Bytes × Bytes) := resp.headers.map Header.field

-- The fields of one name, and all the others, in the order of the list.
def ofName (name : Bytes) (fields : List (Bytes × Bytes)) : List (Bytes × Bytes) :=
  fields.filter fun f => ciEq f.1 name

def notOfName (name : Bytes) (fields : List (Bytes × Bytes)) : List (Bytes × Bytes) :=
  fields.filter fun f => !ciEq f.1 name

-- ---- what a field list promises ----

def HeaderOp.Right (resp : Response) (op : HeaderOp) : Prop :=
  match op with
  | .set name value =>
      (∃ spelling, ofName name (op.apply resp).2.fields = [(spelling, value)]) ∧
        notOfName name (op.apply resp).2.fields = notOfName name resp.fields
  | .add name value =>
      ofName name (op.apply resp).2.fields = ofName name resp.fields ++ [(name, value)] ∧
        notOfName name (op.apply resp).2.fields = notOfName name resp.fields
  | .del name =>
      ofName name (op.apply resp).2.fields = [] ∧ (op.apply resp).1 = (ofName name resp.fields).length ∧
        notOfName name (op.apply resp).2.fields = notOfName name resp.fields
  | .clear => (op.apply resp).2.fields = []

-- The list has nothing that the comparison by strcmp or the insertion at the front gets wrong.
def HeaderOp.Fits (resp : Response) (op : HeaderOp) : Prop :=
  match op with
  | .set name _ => ofName name resp.fields = [] ∨ ∃ value, ofName name resp.fields = [(name, value)]
  | .add name value => ∀ f ∈ ofName name resp.fields, f = (name, value)
  | .del name => ∀ f ∈ ofName name resp.fields, f.1 = name
  | .clear => True

def AllAlong (P : Response → HeaderOp → Prop) : Response → List HeaderOp → Prop
  | _, [] => True
  | resp, op :: ops => P resp op ∧ AllAlong P (op.apply resp).2 ops

-- The fields of a name that the operations leave, in the order they were added.
def HeaderOp.intend (name : Bytes) (fields : List (Bytes × Bytes)) : HeaderOp → List (Bytes × Bytes)
  | .set n v => if ciEq n name then [(n, v)] else fields
  | .add n v => if ciEq n name then fields ++ [(n, v)] else fields
  | .del n => if ciEq n name then [] else fields
  | .clear => []

def intended (name : Bytes) (ops : List HeaderOp) : List (Bytes × Bytes) :=
  ops.foldl (HeaderOp.intend name) []

-- ---- names without case ----

theorem ciEq_iff {a b : Bytes} : ciEq a b = true ↔ a.map toLower = b.map toLower := beq_iff_eq

theorem ciEq_trans {a b c : Bytes} (h : ciEq a b = true) (h' : ciEq b c = true) : ciEq a c = true :=
  ciEq_iff.mpr ((ciEq_iff.mp h).trans (ciEq_iff.mp h'))

theorem ciEq_symm {a b : Bytes} (h : ciEq a b = true) : ciEq b a = true := ciEq_iff.mpr (ciEq_iff.mp h).symm

-- Two spellings of a name stand for the same fields.
theorem ofName_congr {n name : Bytes} (h : ciEq n name = true) (fields : List (Bytes × Bytes)) :
    ofName name fields = ofName n fields := by
  unfold ofName
  congr 1
  funext f
  rw [Bool.eq_iff_iff]
  exact ⟨fun hf => ciEq_trans hf (ciEq_symm h), fun hf => ciEq_trans hf h⟩

-- The fields of a name are among those that another name leaves alone.
theorem ofName_notOfName {n name : Bytes} (h : ciEq n name = false) (fields : List (Bytes × Bytes)) :
    ofName name (notOfName n fields) = ofName name fields := by
  unfold ofName notOfName
  rw [List.filter_filter]
  congr 1
  funext f
  cases hf : ciEq f.1 name with
  | false => rfl
  | true =>
      have hother : ciEq f.1 n = false := by
        by_contra hn
        have hsame := ciEq_trans (ciEq_symm (eq_true_of_ne_false hn)) hf
        exact absurd (hsame.symm.trans h) (by decide)
      rw [hother]
      rfl

section

variable (name value : Bytes) (pre post : List (Bytes × Bytes))

theorem ofName_self : ofName name (pre ++ (name, value) :: post) =
    ofName name pre ++ (name, value) :: ofName name post := by
  unfold ofName
  rw [List.filter_append, List.filter_cons, if_pos (ciEq_self name)]

theorem notOfName_self : notOfName name (pre ++ (name, value) :: post) =
    notOfName name pre ++ notOfName name post := by
  have hself : ¬ (!ciEq name name) = true := by
    rw [ciEq_self]
    decide
  unfold notOfName
  rw [List.filter_append, List.filter_cons, if_neg hself]

end

-- ---- the helpers on the fields ----

-- Every field has a name and a value.
def Response.Filled (resp : Response) : Prop := ∀ h ∈ resp.headers, ∃ n v, h.name = some n ∧ h.value = some v

theorem field_some {n v : Bytes} : Header.field { name := some n, value := some v } = (n, v) := rfl

theorem overwrite_none {name value : Bytes} {hs : List Header} (h : overwrite name value hs = none) :
    ∀ g ∈ hs, g.name ≠ some name := by
  induction hs with
  | nil => nofun
  | cons g hs ih =>
      rw [overwrite] at h
      split at h
      · cases h
      · intro x hx
        rcases List.mem_cons.mp hx with rfl | hx
        · assumption
        · exact ih (Option.map_eq_none_iff.mp h) x hx

theorem overwrite_some {name value : Bytes} {hs hs' : List Header} (h : overwrite name value hs = some hs') :
    ∃ pre g post, hs = pre ++ g :: post ∧ g.name = some name ∧
      hs' = pre ++ { g with value := some value } :: post := by
  induction hs generalizing hs' with
  | nil => cases h
  | cons g hs ih =>
      rw [overwrite] at h
      split at h
      · exact ⟨[], g, hs, rfl, ‹_›, (Option.some.inj h).symm⟩
      · obtain ⟨rest, hrest, rfl⟩ := Option.map_eq_some_iff.mp h
        obtain ⟨pre, x, post, rfl, hname, rfl⟩ := ih hrest
        exact ⟨g :: pre, x, post, rfl, hname, rfl⟩

theorem unlinkNamed_eq (name : Bytes) (hs : List Header) : unlinkNamed name hs =
    ((hs.filter fun h => h.name = some name).length, hs.filter fun h => h.name ≠ some name) := by
  induction hs with
  | nil => rfl
  | cons h hs ih =>
      rw [unlinkNamed, ih]
      by_cases hname : h.name = some name
      · simp [hname]
      · simp [hname]

section

variable {resp : Response} (h : resp.Filled)
include h

-- set: the first field of this spelling, or a new one in front.
theorem set_fields (name value : Bytes) :
    (∃ pre old post, resp.fields = pre ++ (name, old) :: post ∧
        (responseHeaderSet ⟨true, true, true⟩ resp (some name) (some value)).2.fields =
          pre ++ (name, value) :: post) ∨
      (∀ f ∈ resp.fields, f.1 ≠ name) ∧
        (responseHeaderSet ⟨true, true, true⟩ resp (some name) (some value)).2.fields =
          (name, value) :: resp.fields := by
  unfold responseHeaderSet responseHeaderAddNode
  simp only [Bool.not_true, Bool.or_self, Bool.false_eq_true, if_false, if_true]
  cases hover : overwrite name value resp.headers with
  | some headers =>
      left
      obtain ⟨pre, g, post, hsplit, hname, rfl⟩ := overwrite_some hover
      obtain ⟨n, old, hn, hold⟩ := h g (by rw [hsplit]; simp)
      obtain rfl := Option.some.inj (hname.symm.trans hn)
      refine ⟨pre.map Header.field, old, post.map Header.field, ?_, ?_⟩
      · rw [Response.fields, hsplit, List.map_append, List.map_cons, Header.field, hn, hold]
        rfl
      · rw [Response.fields, List.map_append, List.map_cons, Header.field, hn]
        rfl
  | none =>
      right
      refine ⟨fun f hf => ?_, rfl⟩
      obtain ⟨g, hg, rfl⟩ := List.mem_map.mp hf
      obtain ⟨n, v, hn, -⟩ := h g hg
      intro hname
      rw [Header.field, hn] at hname
      exact overwrite_none hover g hg (hn.trans (congrArg some hname))

theorem del_fields (name : Bytes) :
    (responseHeaderDel resp (some name)).2.fields = resp.fields.filter (fun f => f.1 ≠ name) ∧
      (responseHeaderDel resp (some name)).1 = ((resp.fields.filter fun f => f.1 = name).length : Int) := by
  have hsame : ∀ g ∈ resp.headers, (g.name = some name ↔ g.field.1 = name) := by
    intro g hg
    obtain ⟨n, v, hn, -⟩ := h g hg
    rw [Header.field, hn]
    exact ⟨fun he => Option.some.inj he, fun he => congrArg some he⟩
  unfold responseHeaderDel
  dsimp only
  rw [unlinkNamed_eq]
  unfold Response.fields
  constructor
  · rw [List.filter_map]
    congr 1
    refine List.filter_congr fun g hg => ?_
    simp [hsame g hg]
  · rw [List.filter_map, List.length_map]
    refine congrArg (Nat.cast : Nat → Int) (congrArg List.length (List.filter_congr fun g hg => ?_))
    simp [hsame g hg]

theorem Response.Filled.apply (op : HeaderOp) : (op.apply resp).2.Filled := by
  cases op with
  | set name value =>
      show (responseHeaderSet ⟨true, true, true⟩ resp (some name) (some value)).2.Filled
      unfold responseHeaderSet responseHeaderAddNode
      simp only [Bool.not_true, Bool.or_self, Bool.false_eq_true, if_false, if_true]
      cases hover : overwrite name value resp.headers with
      | some headers =>
          obtain ⟨pre, g, post, hsplit, hname, rfl⟩ := overwrite_some hover
          intro x hx
          rcases List.mem_append.mp hx with hx | hx
          · exact h x (by rw [hsplit]; exact List.mem_append_left _ hx)
          rcases List.mem_cons.mp hx with rfl | hx
          · exact ⟨name, value, hname, rfl⟩
          · exact h x (by rw [hsplit]; exact List.mem_append_right _ (List.mem_cons_of_mem g hx))
      | none =>
          intro x hx
          rcases List.mem_cons.mp hx with rfl | hx
          · exact ⟨name, value, rfl, rfl⟩
          · exact h x hx
  | add name value =>
      intro x hx
      rcases List.mem_cons.mp hx with rfl | hx
      · exact ⟨name, value, rfl, rfl⟩
      · exact h x hx
  | del name =>
      have hkept : (responseHeaderDel resp (some name)).2.headers =
          resp.headers.filter fun g => g.name ≠ some name := by
        unfold responseHeaderDel
        dsimp only
        rw [unlinkNamed_eq]
      intro x hx
      exact h x (List.mem_of_mem_filter (hkept ▸ hx))
  | clear => nofun

theorem set_right_iff (name value : Bytes) :
    (HeaderOp.set name value).Right resp ↔ (HeaderOp.set name value).Fits resp := by
  unfold HeaderOp.Right HeaderOp.Fits HeaderOp.apply
  dsimp only
  rcases set_fields h name value with ⟨pre, old, post, hfields, hafter⟩ | ⟨hno, hafter⟩
  · rw [hfields, hafter, ofName_self, ofName_self, notOfName_self, notOfName_self, eq_self, and_true]
    constructor
    · rintro ⟨spelling, hone⟩
      have hlen := congrArg List.length hone
      simp only [List.length_append, List.length_cons, List.length_nil] at hlen
      have hpre := List.eq_nil_of_length_eq_zero (by omega : (ofName name pre).length = 0)
      have hpost := List.eq_nil_of_length_eq_zero (by omega : (ofName name post).length = 0)
      rw [hpre, hpost]
      exact .inr ⟨old, rfl⟩
    · rintro (hnil | ⟨w, hone⟩)
      · exact absurd hnil (List.append_ne_nil_of_right_ne_nil _ (List.cons_ne_nil _ _))
      · have hlen := congrArg List.length hone
        simp only [List.length_append, List.length_cons, List.length_nil] at hlen
        have hpre := List.eq_nil_of_length_eq_zero (by omega : (ofName name pre).length = 0)
        have hpost := List.eq_nil_of_length_eq_zero (by omega : (ofName name post).length = 0)
        rw [hpre, hpost]
        exact ⟨name, rfl⟩
  · have hname := ofName_self name value [] resp.fields
    have hother := notOfName_self name value [] resp.fields
    rw [List.nil_append] at hname hother
    rw [hafter, hname, hother]
    constructor
    · rintro ⟨⟨spelling, hone⟩, -⟩
      exact .inl (List.cons.inj hone).2
    · rintro (hnil | ⟨w, hone⟩)
      · rw [hnil]
        exact ⟨⟨name, rfl⟩, rfl⟩
      · have hmem : (name, w) ∈ resp.fields :=
          List.mem_of_mem_filter (hone ▸ List.mem_singleton.mpr rfl : (name, w) ∈ ofName name resp.fields)
        exact absurd rfl (hno _ hmem)

omit h in
theorem add_right_iff (name value : Bytes) :
    (HeaderOp.add name value).Right resp ↔ (HeaderOp.add name value).Fits resp := by
  have hafter : (responseHeaderAdd ⟨true, true, true⟩ resp (some name) (some value)).2.fields =
      [] ++ (name, value) :: resp.fields := rfl
  unfold HeaderOp.Right HeaderOp.Fits HeaderOp.apply
  dsimp only
  rw [hafter, ofName_self, notOfName_self]
  have hnil : notOfName name [] = [] := rfl
  have hnil' : ofName name [] = [] := rfl
  rw [hnil, hnil', List.nil_append, List.nil_append, eq_self, and_true]
  generalize ofName name resp.fields = l
  induction l with
  | nil => exact ⟨fun _ => nofun, fun _ => rfl⟩
  | cons f l ih =>
      rw [List.cons_append, List.cons.injEq, List.forall_mem_cons]
      constructor
      · rintro ⟨rfl, hrest⟩
        exact ⟨rfl, ih.mp hrest⟩
      · rintro ⟨rfl, hrest⟩
        exact ⟨rfl, ih.mpr hrest⟩

theorem del_right_iff (name : Bytes) : (HeaderOp.del name).Right resp ↔ (HeaderOp.del name).Fits resp := by
  obtain ⟨hafter, hcount⟩ := del_fields h name
  unfold HeaderOp.Right HeaderOp.Fits HeaderOp.apply
  dsimp only
  rw [hafter, hcount]
  have hnone : ofName name (resp.fields.filter fun f => f.1 ≠ name) = [] ↔
      ∀ f ∈ ofName name resp.fields, f.1 = name := by
    unfold ofName
    rw [List.filter_filter, List.filter_eq_nil_iff]
    simp only [Bool.and_eq_true, decide_eq_true_eq, not_and, not_not, List.mem_filter, and_imp]
  rw [hnone]
  refine ⟨fun hright => hright.1, fun hfits => ⟨hfits, ?_, ?_⟩⟩
  · congr 2
    unfold ofName
    refine List.filter_congr fun f hf => ?_
    rw [Bool.eq_iff_iff, decide_eq_true_eq]
    constructor
    · intro hname
      rw [hname]
      exact ciEq_self name
    · exact fun hname => hfits f (List.mem_filter.mpr ⟨hf, hname⟩)
  · unfold notOfName
    rw [List.filter_filter]
    refine List.filter_congr fun f hf => ?_
    cases hname : ciEq f.1 name with
    | true => rfl
    | false =>
        have hne : f.1 ≠ name := by
          intro he
          rw [he, ciEq_self] at hname
          cases hname
        simp [hne]

theorem right_iff_fits (op : HeaderOp) : op.Right resp ↔ op.Fits resp := by
  cases op with
  | set name value => exact set_right_iff h name value
  | add name value => exact add_right_iff name value
  | del name => exact del_right_iff h name
  | clear => exact ⟨fun _ => trivial, fun _ => rfl⟩

end

-- ---- whole runs ----

-- One operation on the fields of any name.
theorem apply_ofName {resp : Response} (h : resp.Filled) {op : HeaderOp} (hfits : op.Fits resp) (name : Bytes) :
    ofName name (op.apply resp).2.fields = op.intend name (ofName name resp.fields) := by
  have hright := (right_iff_fits h op).mpr hfits
  have hothers : ∀ n : Bytes, ciEq n name = false →
      notOfName n (op.apply resp).2.fields = notOfName n resp.fields →
        ofName name (op.apply resp).2.fields = ofName name resp.fields := by
    intro n hn hsame
    rw [← ofName_notOfName hn, hsame, ofName_notOfName hn]
  cases op with
  | set n v =>
      obtain ⟨⟨spelling, hone⟩, hsame⟩ := hright
      rw [HeaderOp.intend]
      by_cases hn : ciEq n name = true
      · have hmem : (n, v) ∈ ((HeaderOp.set n v).apply resp).2.fields := by
          rcases set_fields h n v with ⟨pre, old, post, -, hafter⟩ | ⟨-, hafter⟩
          · exact hafter ▸ List.mem_append_right _ List.mem_cons_self
          · exact hafter ▸ List.mem_cons_self
        have hself : (n, v) ∈ ofName n ((HeaderOp.set n v).apply resp).2.fields :=
          List.mem_filter.mpr ⟨hmem, ciEq_self n⟩
        rw [hone] at hself
        rw [if_pos hn, ofName_congr hn, hone, List.mem_singleton.mp hself]
      · rw [if_neg hn]
        exact hothers n (eq_false_of_ne_true hn) hsame
  | add n v =>
      obtain ⟨hlast, hsame⟩ := hright
      rw [HeaderOp.intend]
      by_cases hn : ciEq n name = true
      · rw [if_pos hn, ofName_congr hn, hlast, ofName_congr hn]
      · rw [if_neg hn]
        exact hothers n (eq_false_of_ne_true hn) hsame
  | del n =>
      obtain ⟨hnone, -, hsame⟩ := hright
      rw [HeaderOp.intend]
      by_cases hn : ciEq n name = true
      · rw [if_pos hn, ofName_congr hn, hnone]
      · rw [if_neg hn]
        exact hothers n (eq_false_of_ne_true hn) hsame
  | clear => rfl

theorem edit_filled {resp : Response} (h : resp.Filled) (ops : List HeaderOp) : (resp.edit ops).Filled := by
  induction ops generalizing resp with
  | nil => exact h
  | cons op ops ih => exact ih (h.apply op)

theorem edit_ofName {resp : Response} (h : resp.Filled) {ops : List HeaderOp}
    (hfits : AllAlong HeaderOp.Fits resp ops) (name : Bytes) :
    ofName name (resp.edit ops).fields = ops.foldl (HeaderOp.intend name) (ofName name resp.fields) := by
  induction ops generalizing resp with
  | nil => rfl
  | cons op ops ih =>
      rw [List.foldl_cons, ← apply_ofName h hfits.1]
      exact ih (h.apply op) hfits.2

theorem allRight_iff {resp : Response} (h : resp.Filled) (ops : List HeaderOp) :
    AllAlong HeaderOp.Right resp ops ↔ AllAlong HeaderOp.Fits resp ops := by
  induction ops generalizing resp with
  | nil => exact Iff.rfl
  | cons op ops ih => exact and_congr (right_iff_fits h op) (ih (h.apply op))

-- The builder adds a field only when the list has none of that name.
theorem respHasHeader_none {resp : Response} {name : Bytes} (h : respHasHeader resp name = false) :
    ∀ g ∈ resp.headers, ∀ n, g.name = some n → ciEq n name = false := by
  intro g hg n hn
  have hno := List.any_eq_false.mp h g hg
  rw [hn] at hno
  exact eq_false_of_ne_true hno

theorem added_fields {resp : Response} (h : resp.Filled) (closeIt : Bool) :
    ∀ f ∈ lengthField resp ++ closeField resp closeIt, ofName f.1 resp.fields = [] := by
  have hnone : ∀ name, respHasHeader resp name = false → ofName name resp.fields = [] := by
    intro name hno
    rw [ofName, List.filter_eq_nil_iff]
    intro f hf hname
    obtain ⟨g, hg, rfl⟩ := List.mem_map.mp hf
    obtain ⟨n, v, hn, -⟩ := h g hg
    rw [Header.field, hn] at hname
    exact absurd (hname.symm.trans (respHasHeader_none hno g hg n hn)) (by decide)
  intro f hf
  rcases List.mem_append.mp hf with hf | hf
  · unfold lengthField at hf
    split at hf
    · rename_i hadded
      rw [List.mem_singleton.mp hf]
      exact hnone _ (by simpa using (Bool.and_eq_true_iff.mp hadded).2)
    · cases hf
  · unfold closeField at hf
    split at hf
    · rename_i hadded
      rw [List.mem_singleton.mp hf]
      exact hnone _ (by simpa using (Bool.and_eq_true_iff.mp hadded).2)
    · cases hf

-- The header list is an HTTP field list exactly as long as no name is spelled in two ways and no
-- field is added to another of its name; the header area shows the list in its own order.
theorem field_list_iff (ops : List HeaderOp) :
    (AllAlong HeaderOp.Right responseInit ops ↔ AllAlong HeaderOp.Fits responseInit ops) ∧
      (AllAlong HeaderOp.Fits responseInit ops →
        ∀ name, ofName name (responseInit.edit ops).fields = intended name ops) ∧
      ∀ (resp : Response) (text : Bytes) (closeIt : Bool) (head : Bytes),
        resp.headers = (responseInit.edit ops).headers → respondHead resp text closeIt = some head →
          ∃ added, head = headOf (statusLine resp text) ((responseInit.edit ops).fields ++ added) ∧
            ∀ f ∈ added, ofName f.1 (responseInit.edit ops).fields = [] := by
  have hinit : responseInit.Filled := nofun
  refine ⟨allRight_iff hinit ops, fun hfits name => edit_ofName hinit hfits name, ?_⟩
  intro resp text closeIt head hheaders hhead
  have hfields : resp.fields = (responseInit.edit ops).fields := by
    rw [Response.fields, hheaders]
    rfl
  have hfilled : resp.Filled := fun g hg => edit_filled hinit ops g (hheaders ▸ hg)
  refine ⟨lengthField resp ++ closeField resp closeIt, ?_, ?_⟩
  · rw [← hfields]
    exact (respondHead_some hhead).1
  · rw [← hfields]
    exact added_fields hfilled closeIt

-- The second cookie goes in front of the first.
theorem second_cookie_first :
    ¬ AllAlong HeaderOp.Right responseInit
      [.add (ascii "Set-Cookie") (ascii "x=1"), .add (ascii "Set-Cookie") (ascii "y=2")] := by
  intro h
  have hlast := h.2.1.1
  revert hlast
  decide

end Sevent.Http
