import StyleMixins.Proofs.Sheet.Bare
import StyleMixins.Proofs.Text.Trim
import StyleMixins.Record.Fragment

namespace StyleMixins

open Element

/-- The items of a list under their positions. -/
def Value.keyed (index : Nat) : List Value → List (String × Value)
  | [] => []
  | v :: rest => (toString index, v) :: keyed (index + 1) rest

/-- The entries right inside a value. -/
def Value.entries : Value → List (String × Value)
  | .list items => keyed 0 items
  | .record fields => fields
  | _ => []

def Value.scalarText? : Value → Option String
  | .bool b => some (if b then "true" else "false")
  | .number n => some n.text
  | .text s => some s
  | _ => none

namespace Record

variable {source : Option Source} {key name params : String} {v : Value} {kind : Kind}

/-- A key with an `@`. The first token behind it is the name; what follows the name, trimmed, are the parameters. -/
def AtKey (key name params : String) : Prop :=
  ∃ lead tail : List Char, key.toList = '@' :: (lead ++ (name.toList ++ tail)) ∧
    (∀ c ∈ lead, Text.isBlank c = true) ∧ (∀ c ∈ name.toList, Text.isBlank c = false) ∧
    (∀ c ∈ tail.head?, Text.isBlank c = true) ∧ (name = "" → tail = []) ∧ params = String.ofList (Text.trim tail)

inductive IsKind (key : String) (v : Value) : Kind → Prop
  | declaration {text : String} (scalar : v.scalarText? = some text) : IsKind key v (.declaration key text)
  | rule (container : v.scalarText? = none) (plain : '@' ∉ key.toList.head?) : IsKind key v (.rule key)
  | atRule {name params : String} (container : v.scalarText? = none) (marked : AtKey key name params) :
      IsKind key v (.atRule name params true)

def entryKind (key : String) (v : Value) : Kind :=
  match v.scalarText? with
  | some text => .declaration key text
  | none => containerKind key

theorem takeWhile_append_blanks {cs ws : List Char} (h : ∀ c ∈ ws, Text.isBlank c = true) :
    (cs ++ ws).takeWhile (!Text.isBlank ·) = cs.takeWhile (!Text.isBlank ·) := by
  induction cs with
  | nil =>
    cases ws with
    | nil => rfl
    | cons c ws => simp [h c (List.mem_cons_self ..)]
  | cons c cs ih => by_cases hc : Text.isBlank c = true <;> simp [hc, ih]

theorem trim_dropWhile_append_blanks {cs ws : List Char} (h : ∀ c ∈ ws, Text.isBlank c = true) :
    Text.trim ((cs ++ ws).dropWhile (!Text.isBlank ·)) = Text.trim (cs.dropWhile (!Text.isBlank ·)) := by
  induction cs with
  | nil =>
    have hws : ws.dropWhile (!Text.isBlank ·) = ws := Text.dropWhile_eq_self fun c hc => by
      simp [h c (List.mem_of_mem_head? hc)]
    have htrim : Text.trim ([] ++ ws) = Text.trim [] := Text.trim_append h
    simpa [hws] using htrim
  | cons c cs ih =>
    have htrim : Text.trim (c :: cs ++ ws) = Text.trim (c :: cs) := Text.trim_append h
    by_cases hc : Text.isBlank c = true
    · simpa [List.dropWhile_cons, hc] using htrim
    · simpa [List.dropWhile_cons, hc] using ih

/-- Blanks at the end of a key make no difference. -/
theorem containerKind_of_marked {rest : List Char} (h : key.toList = '@' :: rest) :
    containerKind key = .atRule (String.ofList ((Text.trimStart rest).takeWhile (!Text.isBlank ·)))
      (String.ofList (Text.trim ((Text.trimStart rest).dropWhile (!Text.isBlank ·)))) true := by
  obtain ⟨right, hend, hright⟩ := Text.exists_trimEnd_append (Text.trimStart rest)
  rw [← hend, takeWhile_append_blanks hright, trim_dropWhile_append_blanks hright, containerKind, h]
  rfl

theorem AtKey.containerKind_eq (h : AtKey key name params) : containerKind key = .atRule name params true := by
  obtain ⟨lead, tail, hkey, hlead, hname, htail, hempty, rfl⟩ := h
  have hstart : Text.trimStart (lead ++ (name.toList ++ tail)) = name.toList ++ tail := by
    rw [Text.trimStart, List.dropWhile_append_of_pos hlead]
    apply Text.dropWhile_eq_self
    intro c hc
    cases hn : name.toList with
    | nil =>
      have hnil : tail = [] := hempty (String.toList_eq_nil_iff.mp hn)
      simp [hn, hnil] at hc
    | cons d ds =>
      rw [hn] at hname
      obtain rfl : d = c := by simpa [hn] using hc
      exact hname d (List.mem_cons_self ..)
  have hstop : ∀ c ∈ tail.head?, (!Text.isBlank c) = false := fun c hc => by simp [htail c hc]
  have hpos : ∀ c ∈ name.toList, (!Text.isBlank c) = true := fun c hc => by simp [hname c hc]
  have htake : tail.takeWhile (!Text.isBlank ·) = [] := by
    cases tail with
    | nil => rfl
    | cons c cs => exact List.takeWhile_cons_of_neg (by simpa using hstop c rfl)
  rw [containerKind_of_marked hkey, hstart, List.takeWhile_append_of_pos hpos, List.dropWhile_append_of_pos hpos, htake,
    Text.dropWhile_eq_self hstop, List.append_nil, String.ofList_toList]

theorem exists_atKey {rest : List Char} (h : key.toList = '@' :: rest) : ∃ name params, AtKey key name params := by
  refine ⟨String.ofList ((Text.trimStart rest).takeWhile (!Text.isBlank ·)), _, rest.takeWhile Text.isBlank,
    (Text.trimStart rest).dropWhile (!Text.isBlank ·), ?_, fun c hc => List.mem_takeWhile_imp hc, ?_, ?_, ?_, rfl⟩
  · rw [String.toList_ofList, List.takeWhile_append_dropWhile, Text.trimStart, List.takeWhile_append_dropWhile, h]
  · intro c hc
    rw [String.toList_ofList] at hc
    simpa using List.mem_takeWhile_imp hc
  · intro c hc
    simpa using Text.head_dropWhile hc
  · intro hempty
    -- No token behind the `@`: then there are blanks only, and the lead takes them all.
    have hnone : (Text.trimStart rest).takeWhile (!Text.isBlank ·) = [] := by simpa using hempty
    cases hs : Text.trimStart rest with
    | nil => rfl
    | cons c cs =>
      have hhead : c ∈ (rest.dropWhile Text.isBlank).head? := by
        rw [← Text.trimStart, hs]
        rfl
      simp [hs, Text.head_dropWhile hhead] at hnone

theorem isKind_iff : IsKind key v kind ↔ kind = entryKind key v := by
  rw [entryKind]
  constructor
  · rintro (h | ⟨h, hplain⟩ | ⟨h, hmarked⟩)
    · rw [h]
    · rw [h]
      simp only [containerKind]
      split
      next rest hkey => exact absurd (by simp [hkey]) hplain
      next => rfl
    · rw [h]
      exact hmarked.containerKind_eq.symm
  · rintro rfl
    cases hs : v.scalarText? with
    | some text => exact .declaration hs
    | none =>
      by_cases hplain : '@' ∈ key.toList.head?
      · obtain ⟨rest, hkey⟩ := List.head?_eq_some_iff.mp hplain
        obtain ⟨name, params, hmarked⟩ := exists_atKey hkey
        simp only [hmarked.containerKind_eq]
        exact .atRule hs hmarked
      · have hkind : containerKind key = .rule key := by
          rw [containerKind]
          split
          next rest hkey => exact absurd (by simp [hkey]) hplain
          next => rfl
        simp only [hkind]
        exact .rule hs hplain

mutual

/-- The element shows one entry: it is of the entry's kind, and its children show the entries inside it in order. -/
def Shown (source : Option Source) (key : String) (v : Value) : Element → Prop
  | .mk kind s children => IsKind key v kind ∧ s = source ∧ AllShown source v.entries children

def AllShown (source : Option Source) : List (String × Value) → List Element → Prop
  | [], [] => True
  | (key, v) :: entries, e :: es => Shown source key v e ∧ AllShown source entries es
  | _, _ => False

end

mutual

/-- All entries inside a value, each before those inside it. -/
def listingWithin : Value → List (String × Value)
  | .list items => itemListing 0 items
  | .record fields => listing fields
  | _ => []

def itemListing (index : Nat) : List Value → List (String × Value)
  | [] => []
  | v :: rest => (toString index, v) :: (listingWithin v ++ itemListing (index + 1) rest)

/-- All entries of a record, each before those inside it. -/
def listing : List (String × Value) → List (String × Value)
  | [] => []
  | (key, v) :: rest => (key, v) :: (listingWithin v ++ listing rest)

end

/-- Induction over records that also goes into the first value. -/
theorem induction {motive : List (String × Value) → Prop} (nil : motive [])
    (cons : ∀ key v rest, motive v.entries → motive rest → motive ((key, v) :: rest))
    (fields : List (String × Value)) : motive fields :=
  @Value.rec_2 (fun v => motive v.entries) (fun items => ∀ index, motive (Value.keyed index items)) motive
    (fun entry => motive entry.2.entries)
    nil (fun _ => nil) (fun _ => nil) (fun _ => nil) (fun _ items => items 0) (fun _ fields => fields)
    (fun _ => nil) (fun v _ hv hr index => cons _ v _ hv (hr (index + 1)))
    nil (fun entry rest hv hr => cons entry.1 entry.2 rest hv hr)
    (fun _ _ hv => hv) fields

theorem itemElements_eq (index : Nat) (items : List Value) :
    itemElements source index items = fieldElements source (Value.keyed index items) := by
  induction items generalizing index with
  | nil => rfl
  | cons v rest ih => rw [itemElements, Value.keyed, fieldElements, ih]

theorem fieldElements_cons (key : String) (v : Value) (rest : List (String × Value)) :
    fieldElements source ((key, v) :: rest) =
      .mk (entryKind key v) source (fieldElements source v.entries) :: fieldElements source rest := by
  cases v <;> simp [fieldElements, entryElement, entryKind, Value.scalarText?, Value.entries, itemElements_eq]

theorem itemListing_eq (index : Nat) (items : List Value) :
    itemListing index items = listing (Value.keyed index items) := by
  induction items generalizing index with
  | nil => rfl
  | cons v rest ih => rw [itemListing, Value.keyed, listing, ih]

theorem listing_cons (key : String) (v : Value) (rest : List (String × Value)) :
    listing ((key, v) :: rest) = (key, v) :: (listing v.entries ++ listing rest) := by
  cases v <;> simp [listing, listingWithin, Value.entries, itemListing_eq]

/-- Just one list of elements shows the entries of a record. -/
theorem allShown_iff {fields : List (String × Value)} {es : List Element} :
    AllShown source fields es ↔ es = fieldElements source fields := by
  induction fields using induction generalizing es with
  | nil => cases es <;> simp [AllShown, fieldElements]
  | cons key v rest hv hr =>
    match es with
    | [] => simp [AllShown, fieldElements]
    | .mk kind s children :: es =>
      rw [fieldElements_cons, AllShown, Shown, isKind_iff, hv, hr]
      simp

/-- All nodes of a record have the source that is given for it. -/
theorem source_fieldElements (source : Option Source) (fields : List (String × Value)) :
    ∀ x ∈ partsAll (fieldElements source fields), x.source = source := by
  induction fields using induction with
  | nil => simp [fieldElements]
  | cons key v rest hv hr =>
    rw [fieldElements_cons, partsAll_cons, List.forall_mem_cons, List.forall_mem_append]
    exact ⟨rfl, hv, hr⟩

theorem map_kind_fieldElements (source : Option Source) (fields : List (String × Value)) :
    (partsAll (fieldElements source fields)).map Element.kind =
      (listing fields).map fun entry => entryKind entry.1 entry.2 := by
  induction fields using induction with
  | nil => rfl
  | cons key v rest hv hr =>
    rw [fieldElements_cons, listing_cons, partsAll_cons, List.map_cons, List.map_append, hv, hr, List.map_cons,
      List.map_append]
    rfl

end Record

end StyleMixins
