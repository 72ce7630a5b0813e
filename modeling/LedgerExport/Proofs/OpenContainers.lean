import LedgerExport.Ion.Text

/-!
# What is open is not looked at again

While a text is read, the containers that are open are kept with the values that they hold so far.
How the reading goes on does not depend on these values: the text decides whether it fails, and
otherwise which values follow. `closes_or_fails` says so of containers within others,
`struct_closes_or_fails` of the fields of a struct, and `document_ends_or_fails` of the items of a
document. They are put together in `fields_follow`.
-/

namespace LedgerExport.Ion

variable {size : Nat} {s t rest : List Char} {n outer : Nest} {up inner : List Nest} {frame : Frame}
  {v : Value SymbolRef}

/-! ## Gaps take away -/

/-- What is left behind a gap is no longer than what was there. -/
theorem Gap.length_skip? {gap : Gap} (h : gap.skip? s = some t) : t.length ≤ s.length := by
  fun_induction Gap.skip? gap s with
  | case1 s ih | case2 s ih | case3 c s _ _ _ ih | case5 c s ih | case6 s ih | case7 c s _ ih =>
    have hle := ih h
    simp only [List.length_cons]
    omega
  | case4 c s | case8 | case9 =>
    obtain rfl := Option.some.inj h
    exact Nat.le_refl _
  | case10 => cases h

/-- What is left behind a value and its comma is no longer than what was there. -/
theorem Frame.length_settle? (h : frame.settle? s = some t) : t.length ≤ s.length := by
  have hcomma {close : Char} (h : comma? close s = some t) : t.length ≤ s.length := by
    unfold comma? at h
    obtain ⟨u, hgap, hu⟩ := Option.bind_eq_some_iff.1 h
    have hle := Gap.length_skip? hgap
    split at hu
    · cases hu
      simp only [List.length_cons] at hle
      omega
    · split at hu <;> cases hu
      exact hle
    · cases hu
  cases frame with
  | document | sexp =>
    obtain rfl := Option.some.inj h
    exact Nat.le_refl _
  | list | struct => exact hcomma h

/-- The mark that closes a container takes a character. -/
theorem Frame.length_closed? (h : frame.closed? s = some (v, t)) : t.length < s.length := by
  unfold closed? at h
  split at h <;> cases h <;> simp

/-! ## Containers within others -/

/-- The container is not the document itself. -/
def Frame.IsInner (frame : Frame) : Prop := ∀ items, frame ≠ .document items

/-- A container with one more value is of the same kind. -/
theorem Frame.IsInner.put? {frame' : Frame} (h : frame.IsInner)
    (hput : frame.put? v = some frame') : frame'.IsInner := by
  rintro items rfl
  cases frame with
  | document items => exact h items rfl
  | list | sexp => cases hput
  | struct fields field => cases field <;> cases hput

/-- A container whose next field has been named is of the same kind. -/
theorem Frame.IsInner.field? {frame' : Frame} (h : frame.IsInner)
    (hfield : frame.field? s = some (frame', t)) : frame'.IsInner := by
  cases frame with
  | document items => exact absurd rfl (h items)
  | list | sexp =>
    obtain ⟨rfl, -⟩ := Prod.mk.inj (Option.some.inj hfield)
    exact h
  | struct fields field =>
    obtain ⟨⟨name, rest⟩, -, hname⟩ := Option.bind_eq_some_iff.1 hfield
    obtain ⟨u, -, hu⟩ := Option.bind_eq_some_iff.1 hname
    split at hu
    · obtain ⟨w, -, hw⟩ := Option.bind_eq_some_iff.1 hu
      obtain ⟨rfl, -⟩ := Prod.mk.inj (Option.some.inj hw)
      exact nofun
    · cases hu

/-- A container that has been opened is not the document. -/
theorem Frame.isInner_start (container : Container) : (Frame.start container).IsInner := by
  cases container <;> exact nofun

/-- How reading goes on behind a container that has been closed as a value, within the next one. -/
def resume (size : Nat) (outer : Nest) (up : List Nest) (v : Value SymbolRef) (rest : List Char) :
    Option (List Item) := do
  let frame ← outer.put? v
  itemsWithin? size (.start frame) up (← frame.settle? rest)

/-- A value in an inner container is refused, or it leads into inner containers; the text decides,
whatever is around them. -/
theorem value?_inner (hn : n.frame.IsInner) (t : List Char) :
    (∀ up, Progress.value? size n up t = none) ∨
      ∃ n' inner rest, (∀ m ∈ n' :: inner, m.frame.IsInner) ∧
        ∀ up, Progress.value? size n up t = some (.more n' (inner ++ up) rest) := by
  unfold Progress.value?
  rcases hfield : n.frame.field? t with _ | ⟨frame, u⟩
  · exact .inl fun _ => rfl
  have hframe := hn.field? hfield
  rcases hnames : SymbolRef.annotations u with ⟨names, w⟩
  rcases hliteral : frame.literal? (!names.isEmpty) w with _ | ⟨v | container, rest⟩
  · exact .inl fun _ => by simp [hnames, hliteral]
  · -- A value without parts goes into the container.
    by_cases hcut : Progress.cutsFraction size w v = true
    · exact .inl fun _ => by simp [hnames, hliteral, hcut]
    rcases hput : Nest.put? ⟨frame, names⟩ v with _ | frame'
    · exact .inl fun _ => by simp [hnames, hliteral, hcut, hput]
    have hframe' : frame'.IsInner := hframe.put? hput
    rcases hsettle : frame'.settle? rest with _ | rest'
    · refine .inl fun _ => ?_
      simp only [Option.bind_eq_bind, Option.bind_some, hnames, hliteral, hcut, hput]
      cases frame' with
      | document items => exact absurd rfl (hframe' items)
      | list | sexp | struct => simp [hsettle]
    · refine .inr ⟨.start frame', [], rest', List.forall_mem_singleton.2 hframe', fun up => ?_⟩
      simp only [Option.bind_eq_bind, Option.bind_some, hnames, hliteral, hcut, hput]
      cases frame' with
      | document items => exact absurd rfl (hframe' items)
      | list | sexp | struct => simp [hsettle]
  · refine .inr ⟨.start (.start container), [⟨frame, names⟩], (frame.settle? rest).getD rest, ?_,
      fun up => ?_⟩
    · exact List.forall_mem_cons.2
        ⟨Frame.isInner_start container, List.forall_mem_singleton.2 hframe⟩
    · simp only [Option.bind_eq_bind, Option.bind_some, hnames, hliteral]
      rfl

/-- The end of the text comes too early within a container. -/
theorem itemsWithin?_end (hn : n.frame.IsInner) (hgap : skipGap? s = none ∨ skipGap? s = some []) :
    itemsWithin? size n up s = none := by
  rw [itemsWithin?.eq_def]
  rcases hgap with hgap | hgap
  · rw [hgap]
  · rw [hgap]
    dsimp only
    split
    · rename_i hdocument
      exact absurd hdocument (hn _)
    · rfl

/-- A reading goes on behind a step, if the step takes anything. -/
theorem itemsWithin?_next (hgap : skipGap? s = some t) (ht : t ≠ []) :
    itemsWithin? size n up s =
      match Progress.next? size n up t with
      | none => none
      | some (.done items) => some items
      | some (.more n up rest) =>
        if rest.length < s.length then itemsWithin? size n up rest else none := by
  rw [itemsWithin?.eq_def, hgap]
  cases t with
  | nil => exact absurd rfl ht
  | cons c t => rfl

/-- The mark that closes a container leaves less than there was. -/
theorem length_closed (hgap : skipGap? s = some t) (hclosed : n.frame.closed? t = some (v, rest)) :
    rest.length < s.length := by
  have hle := Gap.length_skip? hgap
  have hlt := Frame.length_closed? hclosed
  omega

/-- A container that is closed is a value of the one around it. -/
theorem itemsWithin?_closed (hgap : skipGap? s = some t)
    (hclosed : n.frame.closed? t = some (v, rest)) :
    itemsWithin? size n (outer :: up) s = resume size outer up v rest := by
  have hrest := length_closed hgap hclosed
  have ht : t ≠ [] := List.ne_nil_of_length_pos (Nat.zero_lt_of_lt (Frame.length_closed? hclosed))
  rw [itemsWithin?_next hgap ht, resume]
  unfold Progress.next?
  rw [hclosed]
  dsimp only
  rcases outer.put? v with _ | frame
  · rfl
  rcases hsettle : frame.settle? rest with _ | rest'
  · simp [hsettle]
  · have hrest' := Frame.length_settle? hsettle
    simp only [Option.bind_eq_bind, Option.bind_some, hsettle]
    exact if_pos (by omega)

/-- A container that is not closed goes on with a value. -/
theorem next?_value (hn : n.frame.IsInner) (hclosed : n.frame.closed? t = none) :
    Progress.next? size n up t = Progress.value? size n up t := by
  unfold Progress.next?
  rw [hclosed]
  dsimp only
  split
  · rename_i hdocument _
    exact absurd hdocument (hn _)
  · rfl

/-- Where no value can be read the reading fails. -/
theorem itemsWithin?_refused (hgap : skipGap? s = some t) (ht : t ≠ [])
    (hnext : Progress.next? size n up t = none) : itemsWithin? size n up s = none := by
  rw [itemsWithin?_next hgap ht, hnext]

/-- Behind a value the reading goes on, if the value takes anything. -/
theorem itemsWithin?_more {n' : Nest} {up' : List Nest} (hgap : skipGap? s = some t) (ht : t ≠ [])
    (hnext : Progress.next? size n up t = some (.more n' up' rest)) :
    itemsWithin? size n up s =
      if rest.length < s.length then itemsWithin? size n' up' rest else none := by
  rw [itemsWithin?_next hgap ht, hnext]

/-- The reading goes on behind what has been read. -/
theorem itemsWithin?_step {n' : Nest} {up' : List Nest} (gap : skipGap? s = some t) (ht : t ≠ [])
    (next : Progress.next? size n up t = some (.more n' up' rest))
    (short : rest.length < s.length) :
    itemsWithin? size n up s = itemsWithin? size n' up' rest :=
  (itemsWithin?_more gap ht next).trans (if_pos short)

/-- What can happen within an inner container: the reading fails, the container is closed, or the
reading goes on in inner containers. The text decides, whatever is around them. -/
theorem step_inner (size : Nat) (hn : n.frame.IsInner) (s : List Char) :
    (∀ up, up ≠ [] → itemsWithin? size n up s = none) ∨
      (∃ v rest, rest.length < s.length ∧ ∀ outer up,
        itemsWithin? size n (outer :: up) s = resume size outer up v rest) ∨
      ∃ n' inner rest, rest.length < s.length ∧ (∀ m ∈ n' :: inner, m.frame.IsInner) ∧
        ∀ up, itemsWithin? size n up s = itemsWithin? size n' (inner ++ up) rest := by
  rcases hgap : skipGap? s with _ | t
  · exact .inl fun _ _ => itemsWithin?_end hn (.inl hgap)
  by_cases ht : t = []
  · exact .inl fun _ _ => itemsWithin?_end hn (.inr (ht ▸ hgap))
  rcases hclosed : n.frame.closed? t with _ | ⟨v, rest⟩
  · have hvalue (up : List Nest) :
        Progress.next? size n up t = Progress.value? size n up t := next?_value hn hclosed
    rcases value?_inner hn t with hnone | ⟨n', inner, rest, hinner, hmore⟩
    · exact .inl fun up _ => itemsWithin?_refused hgap ht ((hvalue up).trans (hnone up))
    have hgoes (up : List Nest) := itemsWithin?_more hgap ht ((hvalue up).trans (hmore up))
    by_cases hshort : rest.length < s.length
    · exact .inr (.inr ⟨n', inner, rest, hshort, hinner, fun up =>
        (hgoes up).trans (if_pos hshort)⟩)
    · exact .inl fun up _ => (hgoes up).trans (if_neg hshort)
  · exact .inr (.inl ⟨v, rest, length_closed hgap hclosed, fun _ _ =>
      itemsWithin?_closed hgap hclosed⟩)

/-- A closed container goes on as the next one with one more value, or it fails there. -/
theorem resume_cases (size : Nat) (outer : Nest) (v : Value SymbolRef) (rest : List Char) :
    (∀ up, resume size outer up v rest = none) ∨
      ∃ frame rest', outer.put? v = some frame ∧ rest'.length ≤ rest.length ∧
        ∀ up, resume size outer up v rest = itemsWithin? size (.start frame) up rest' := by
  unfold resume
  rcases outer.put? v with _ | frame
  · exact .inl fun _ => rfl
  rcases hsettle : frame.settle? rest with _ | rest'
  · exact .inl fun _ => by simp [hsettle]
  · exact .inr ⟨frame, rest', rfl, Frame.length_settle? hsettle, fun _ => by simp [hsettle]⟩

/-- Containers within others fail or are closed, one after the other; the text decides, whatever is
around them. -/
theorem closes_or_fails (size : Nat) (hopen : ∀ m ∈ n :: inner, m.frame.IsInner) (s : List Char) :
    (∀ outer up, itemsWithin? size n (inner ++ outer :: up) s = none) ∨
      ∃ v rest, rest.length < s.length ∧ ∀ outer up,
        itemsWithin? size n (inner ++ outer :: up) s = resume size outer up v rest := by
  induction hlength : s.length using Nat.strongRecOn generalizing n inner s with
  | ind length ih =>
    subst hlength
    obtain ⟨hn, hinner⟩ := List.forall_mem_cons.1 hopen
    rcases step_inner size hn s with hfails | ⟨v, rest, hshort, hcloses⟩ |
      ⟨n', more, rest, hshort, hmore, hgoes⟩
    · exact .inl fun outer up => hfails _ (by simp)
    · cases inner with
      | nil => exact .inr ⟨v, rest, hshort, hcloses⟩
      | cons m inner =>
        obtain ⟨hm, hinner⟩ := List.forall_mem_cons.1 hinner
        -- The closed container is a value of the next one.
        rcases resume_cases size m v rest with hnone | ⟨frame, rest', hput, hle, hresume⟩
        · exact .inl fun outer up => (hcloses m _).trans (hnone _)
        have hopen' : ∀ m' ∈ .start frame :: inner, m'.frame.IsInner :=
          List.forall_mem_cons.2 ⟨hm.put? hput, hinner⟩
        rcases ih rest'.length (by omega) hopen' rest' rfl with hfails | ⟨v, rest, hlt, hcloses'⟩
        · exact .inl fun outer up => ((hcloses m _).trans (hresume _)).trans (hfails outer up)
        · exact .inr ⟨v, rest, by omega, fun outer up =>
            ((hcloses m _).trans (hresume _)).trans (hcloses' outer up)⟩
    · have hopen' : ∀ m ∈ n' :: (more ++ inner), m.frame.IsInner := by
        intro m hm
        rw [← List.cons_append] at hm
        exact (List.mem_append.1 hm).elim (hmore m) (hinner m)
      rcases ih rest.length hshort hopen' rest rfl with hfails | ⟨v, rest', hlt, hcloses⟩
      · refine .inl fun outer up => ?_
        rw [hgoes, ← List.append_assoc, hfails]
      · refine .inr ⟨v, rest', by omega, fun outer up => ?_⟩
        rw [hgoes, ← List.append_assoc, hcloses]

/-! ## The fields of a struct -/

/-- The name of a field and its colon are refused, or they are passed over; the text decides,
whatever the struct holds so far. -/
theorem field?_struct (t : List Char) :
    (∀ fields, (Frame.struct fields none).field? t = none) ∨
      ∃ name u, ∀ fields,
        (Frame.struct fields none).field? t = some (.struct fields (some name), u) := by
  rcases hname : Frame.fieldName? t with _ | ⟨name, rest⟩
  · exact .inl fun _ => by simp [Frame.field?, hname]
  rcases hcolon : skipGap? rest with _ | _ | ⟨c, more⟩
  · exact .inl fun _ => by simp [Frame.field?, hname, hcolon]
  · exact .inl fun _ => by simp [Frame.field?, hname, hcolon]
  by_cases hc : c = ':'
  · subst hc
    rcases hgap : skipGap? more with _ | u
    · exact .inl fun _ => by simp [Frame.field?, hname, hcolon, hgap]
    · exact .inr ⟨name, u, fun _ => by simp [Frame.field?, hname, hcolon, hgap]⟩
  · exact .inl fun _ => by simp [Frame.field?, hname, hcolon, hc]

/-- The mark that closes a struct is at the front, or the struct is not closed there. -/
theorem closed?_struct (t : List Char) : (∃ rest, t = '\x7d' :: rest) ∨
    ∀ fields, (Frame.struct fields none).closed? t = none := by
  by_cases hclosed : ∃ rest, t = '\x7d' :: rest
  · exact .inl hclosed
  · refine .inr fun fields => ?_
    unfold Frame.closed?
    split
    · rename_i heq
      cases heq
    · rename_i heq
      cases heq
    · exact absurd ⟨_, rfl⟩ hclosed
    · rfl

/-- A field of a struct is refused, it has a value without parts, or its value is a container that
is opened; the text decides, whatever the struct holds so far. -/
theorem value?_struct (size : Nat) (t : List Char) :
    (∀ fields up, Progress.value? size (.start (.struct fields none)) up t = none) ∨
      (∃ name v rest, ∀ fields up, Progress.value? size (.start (.struct fields none)) up t =
        some (.more (.start (.struct ((name, v) :: fields) none)) up rest)) ∨
      ∃ name names container rest, ∀ fields up,
        Progress.value? size (.start (.struct fields none)) up t =
          some (.more (.start (.start container)) (⟨.struct fields (some name), names⟩ :: up)
            rest) := by
  unfold Progress.value?
  rcases field?_struct t with hnone | ⟨name, u, hfield⟩
  · exact .inl fun fields up => by simp [Nest.start, hnone]
  rcases hnames : SymbolRef.annotations u with ⟨names, w⟩
  rcases hliteral : Literal.next? w with _ | ⟨v | container, rest⟩
  · exact .inl fun fields up => by simp [Nest.start, hfield, hnames, Frame.literal?, hliteral]
  · by_cases hcut : Progress.cutsFraction size w v = true
    · exact .inl fun fields up => by
        simp [Nest.start, hfield, hnames, Frame.literal?, hliteral, hcut]
    rcases hsettle : Frame.comma? '\x7d' rest with _ | rest'
    · exact .inl fun fields up => by
        simp [Nest.start, hfield, hnames, Frame.literal?, hliteral, hcut, Nest.put?, Frame.put?,
          Frame.settle?, hsettle]
    · exact .inr (.inl ⟨name, v.withAnnotations names, rest', fun fields up => by
        simp [Nest.start, hfield, hnames, Frame.literal?, hliteral, hcut, Nest.put?, Frame.put?,
          Frame.settle?, hsettle]⟩)
  · exact .inr (.inr ⟨name, names, container, (Frame.comma? '\x7d' rest).getD rest,
      fun fields up => by
        simp [Nest.start, hfield, hnames, Frame.literal?, hliteral, Frame.settle?]⟩)

/-- An open struct fails, it is closed, or it goes on with one more field, whatever it holds so far
and whatever is around it. -/
theorem step_struct (size : Nat) (s : List Char) :
    (∀ fields outer up,
      itemsWithin? size (.start (.struct fields none)) (outer :: up) s = none) ∨
      (∃ rest, ∀ fields outer up,
        itemsWithin? size (.start (.struct fields none)) (outer :: up) s =
          resume size outer up (.struct fields.reverse) rest) ∨
      ∃ field rest, rest.length < s.length ∧ ∀ fields outer up,
        itemsWithin? size (.start (.struct fields none)) (outer :: up) s =
          itemsWithin? size (.start (.struct (field :: fields) none)) (outer :: up) rest := by
  have hinner (fields : List (SymbolRef × Value SymbolRef)) :
      (Nest.start (.struct fields none)).frame.IsInner := nofun
  rcases hgap : skipGap? s with _ | t
  · exact .inl fun fields _ _ => itemsWithin?_end (hinner fields) (.inl hgap)
  by_cases ht : t = []
  · exact .inl fun fields _ _ => itemsWithin?_end (hinner fields) (.inr (ht ▸ hgap))
  rcases closed?_struct t with ⟨rest, rfl⟩ | hopen
  · have hclosed (fields : List (SymbolRef × Value SymbolRef)) :
        (Nest.start (.struct fields none)).frame.closed? ('\x7d' :: rest) =
          some (.struct fields.reverse, rest) := rfl
    exact .inr (.inl ⟨rest, fun fields _ _ => itemsWithin?_closed hgap (hclosed fields)⟩)
  have hvalue (fields : List (SymbolRef × Value SymbolRef)) (up : List Nest) :
      Progress.next? size (.start (.struct fields none)) up t =
        Progress.value? size (.start (.struct fields none)) up t :=
    next?_value (hinner fields) (hopen fields)
  rcases value?_struct size t with hnone | ⟨name, v, rest, hfield⟩ |
    ⟨name, names, container, rest, hopening⟩
  · exact .inl fun fields outer up =>
      itemsWithin?_refused hgap ht ((hvalue _ _).trans (hnone _ _))
  · have hgoes (fields : List (SymbolRef × Value SymbolRef)) (outer : Nest) (up : List Nest) :=
      itemsWithin?_more hgap ht ((hvalue fields (outer :: up)).trans (hfield _ _))
    by_cases hshort : rest.length < s.length
    · exact .inr (.inr ⟨(name, v), rest, hshort, fun fields outer up =>
        (hgoes fields outer up).trans (if_pos hshort)⟩)
    · exact .inl fun fields outer up => (hgoes fields outer up).trans (if_neg hshort)
  have hgoes (fields : List (SymbolRef × Value SymbolRef)) (outer : Nest) (up : List Nest) :=
    itemsWithin?_more hgap ht ((hvalue fields (outer :: up)).trans (hopening _ _))
  by_cases hshort : rest.length < s.length
  -- The container is read to its end, whatever is around it, and then it is the field's value.
  · have hstart : ∀ m ∈ [Nest.start (.start container)], m.frame.IsInner :=
      List.forall_mem_singleton.2 (Frame.isInner_start container)
    rcases closes_or_fails size hstart rest with hfails | ⟨v, rest', hlt, hcloses⟩
    · exact .inl fun fields outer up =>
        ((hgoes fields outer up).trans (if_pos hshort)).trans (hfails _ _)
    have hresume (fields : List (SymbolRef × Value SymbolRef)) (outer : Nest) (up : List Nest) :
        itemsWithin? size (.start (.struct fields none)) (outer :: up) s =
          (Frame.comma? '\x7d' rest').bind fun rest =>
            itemsWithin? size (.start (.struct ((name, v.withAnnotations names) :: fields) none))
              (outer :: up) rest :=
      ((hgoes fields outer up).trans (if_pos hshort)).trans (hcloses _ _)
    rcases hcomma : Frame.comma? '\x7d' rest' with _ | rest''
    · exact .inl fun fields outer up => by rw [hresume, hcomma]; rfl
    have hsettle : (Frame.struct [] none).settle? rest' = some rest'' := hcomma
    have hle := Frame.length_settle? hsettle
    refine .inr (.inr
      ⟨(name, v.withAnnotations names), rest'', by omega, fun fields outer up => ?_⟩)
    rw [hresume, hcomma]
    rfl
  · exact .inl fun fields outer up => (hgoes fields outer up).trans (if_neg hshort)

/-- The text decides whether an open struct fails, and which fields it is closed with otherwise,
whatever it holds so far and whatever is around it. -/
theorem struct_closes_or_fails (size : Nat) (s : List Char) :
    (∀ fields outer up,
      itemsWithin? size (.start (.struct fields none)) (outer :: up) s = none) ∨
      ∃ more rest, ∀ fields outer up,
        itemsWithin? size (.start (.struct fields none)) (outer :: up) s =
          resume size outer up (.struct (fields.reverse ++ more)) rest := by
  induction hlength : s.length using Nat.strongRecOn generalizing s with
  | ind length ih =>
    subst hlength
    rcases step_struct size s with hfails | ⟨rest, hcloses⟩ | ⟨field, rest, hshort, hgoes⟩
    · exact .inl hfails
    · exact .inr ⟨[], rest, fun fields outer up => by rw [hcloses, List.append_nil]⟩
    rcases ih rest.length hshort rest rfl with hfails | ⟨more, rest', hcloses⟩
    · exact .inl fun fields outer up => (hgoes fields outer up).trans (hfails _ _ _)
    · refine .inr ⟨field :: more, rest', fun fields outer up => ?_⟩
      rw [hgoes, hcloses, List.reverse_cons, List.append_assoc]
      rfl

/-! ## The items of a document -/

/-- What is next in a document is refused, it is an item behind which the document goes on or ends,
or it is a container that is opened; the text decides, whatever the document holds so far. -/
theorem next?_document (size : Nat) (t : List Char) :
    (∀ items, Progress.next? size (.start (.document items)) [] t = none) ∨
      (∃ marks item gap rest, ∀ items, Progress.next? size (.start (.document items)) [] t =
        some (Progress.behind marks (item :: items) gap rest)) ∨
      ∃ names container rest, ∀ items, Progress.next? size (.start (.document items)) [] t =
        some (.more (.start (.start container)) [⟨.document items, names⟩] rest) := by
  have hclosed (items : List Item) : (Frame.document items).closed? t = none := rfl
  rcases hversion : Progress.version? t with _ | ⟨version, rest⟩
  · have hvalue (items : List Item) : Progress.next? size (.start (.document items)) [] t =
        Progress.value? size (.start (.document items)) [] t := by
      simp [Progress.next?, Nest.start, hclosed, hversion]
    simp only [hvalue]
    unfold Progress.value?
    rcases hnames : SymbolRef.annotations t with ⟨names, w⟩
    have hliteral (items : List Item) : (Frame.document items).literal? (!names.isEmpty) w =
        (Frame.document []).literal? (!names.isEmpty) w := rfl
    rcases hstart : (Frame.document []).literal? (!names.isEmpty) w with _ | ⟨v | container, rest⟩
    · exact .inl fun items => by simp [Nest.start, Frame.field?, hnames, hliteral, hstart]
    · by_cases hcut : Progress.cutsFraction size w v = true
      · exact .inl fun items => by simp [Nest.start, Frame.field?, hnames, hliteral, hstart, hcut]
      · exact .inr (.inl ⟨Progress.lastMarks w v, .value (v.withAnnotations names), skipGap? rest,
          rest, fun items => by
            simp [Nest.start, Frame.field?, hnames, hliteral, hstart, hcut, Nest.put?,
              Frame.put?]⟩)
    · exact .inr (.inr ⟨names, container, rest, fun items => by
        simp [Nest.start, Frame.field?, hnames, hliteral, hstart, Frame.settle?]⟩)
  · exact .inr (.inl ⟨[[':']], version, some (rest.dropWhile isSpace), rest, fun items => by
      simp [Progress.next?, Nest.start, hclosed, hversion]⟩)

/-- A document fails, it ends with some more items, or it goes on with one more item, whatever it
holds so far. -/
theorem step_document (size : Nat) (s : List Char) :
    (∀ items, itemsWithin? size (.start (.document items)) [] s = none) ∨
      (∃ more, ∀ items,
        itemsWithin? size (.start (.document items)) [] s = some (items.reverse ++ more)) ∨
      ∃ item rest, rest.length < s.length ∧ ∀ items,
        itemsWithin? size (.start (.document items)) [] s =
          itemsWithin? size (.start (.document (item :: items))) [] rest := by
  rcases hgap : skipGap? s with _ | t
  · exact .inl fun items => by rw [itemsWithin?.eq_def, hgap]
  by_cases ht : t = []
  · refine .inr (.inl ⟨[], fun items => ?_⟩)
    rw [itemsWithin?.eq_def, hgap, ht, List.append_nil]
    rfl
  rcases next?_document size t with hnone | ⟨marks, item, gap, rest, hitem⟩ |
    ⟨names, container, rest, hopening⟩
  · exact .inl fun items => itemsWithin?_refused hgap ht (hnone items)
  · unfold Progress.behind at hitem
    by_cases hlast : gap.any marks.contains = true
    · refine .inr (.inl ⟨[item], fun items => ?_⟩)
      rw [itemsWithin?_next hgap ht, hitem, if_pos hlast, List.reverse_cons]
    · simp only [if_neg hlast] at hitem
      by_cases hshort : rest.length < s.length
      · exact .inr (.inr ⟨item, rest, hshort, fun items =>
          itemsWithin?_step hgap ht (hitem items) hshort⟩)
      · exact .inl fun items =>
          (itemsWithin?_more hgap ht (hitem items)).trans (if_neg hshort)
  · by_cases hshort : rest.length < s.length
    -- The container is read to its end, whatever is around it, and then it is an item.
    · have hstart : ∀ m ∈ [Nest.start (.start container)], m.frame.IsInner :=
        List.forall_mem_singleton.2 (Frame.isInner_start container)
      have hgoes (items : List Item) :=
        itemsWithin?_step hgap ht (hopening items) hshort
      rcases closes_or_fails size hstart rest with hfails | ⟨v, rest', hlt, hcloses⟩
      · exact .inl fun items => (hgoes items).trans (hfails _ _)
      · exact .inr (.inr ⟨.value (v.withAnnotations names), rest', by omega, fun items =>
          (hgoes items).trans (hcloses _ _)⟩)
    · exact .inl fun items => (itemsWithin?_more hgap ht (hopening items)).trans (if_neg hshort)

/-- The text decides whether a document fails, and which items it ends with otherwise. -/
theorem document_ends_or_fails (size : Nat) (s : List Char) :
    (∀ items, itemsWithin? size (.start (.document items)) [] s = none) ∨
      ∃ more, ∀ items,
        itemsWithin? size (.start (.document items)) [] s = some (items.reverse ++ more) := by
  induction hlength : s.length using Nat.strongRecOn generalizing s with
  | ind length ih =>
    subst hlength
    rcases step_document size s with hfails | hends | ⟨item, rest, hshort, hgoes⟩
    · exact .inl hfails
    · exact .inr hends
    rcases ih rest.length hshort rest rfl with hfails | ⟨more, hends⟩
    · exact .inl fun items => (hgoes items).trans (hfails _)
    · refine .inr ⟨item :: more, fun items => ?_⟩
      rw [hgoes, hends, List.reverse_cons, List.append_assoc]
      rfl

/-- The text decides whether an open struct of a document fails, and which fields and items follow
otherwise, whatever the struct and the document hold so far. -/
theorem fields_follow (size : Nat) (names : List SymbolRef) (s : List Char) :
    (∀ fields items, itemsWithin? size (.start (.struct fields none))
      [⟨.document items, names⟩] s = none) ∨
      ∃ more later, ∀ fields items,
        itemsWithin? size (.start (.struct fields none)) [⟨.document items, names⟩] s =
          some (items.reverse ++
            .value ((Value.struct (fields.reverse ++ more)).withAnnotations names) :: later) := by
  rcases struct_closes_or_fails size s with hfails | ⟨more, rest, hcloses⟩
  · exact .inl fun fields items => hfails _ _ _
  have hgoes (fields : List (SymbolRef × Value SymbolRef)) (items : List Item) :
      itemsWithin? size (.start (.struct fields none)) [⟨.document items, names⟩] s =
        itemsWithin? size (.start (.document
          (.value ((Value.struct (fields.reverse ++ more)).withAnnotations names) :: items))) []
          rest :=
    hcloses _ _ _
  rcases document_ends_or_fails size rest with hfails | ⟨later, hends⟩
  · exact .inl fun fields items => (hgoes _ _).trans (hfails _)
  · refine .inr ⟨more, later, fun fields items => ?_⟩
    rw [hgoes, hends, List.reverse_cons, List.append_assoc]
    rfl

end LedgerExport.Ion
