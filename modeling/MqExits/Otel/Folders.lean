import MqExits.Otel.Delivery

/-!
# Reading a property out of the folders

The name/value text of an MQRFH2 header is a sequence of folders, each of which holds the properties
as elements. `extractRFH2PropVal` knows nothing of that: it searches the text for the tag that opens
the property, and from there for the next bracket. On a text of folders the two searches find **the
value of the first element of that very name** (`extractRFH2PropVal_render`): a tag begins nowhere
but where one was written, and its name ends at its bracket.

## Where a tag can begin

A rendered text is a sequence of tags with text between them (`markup`). Names and texts have no
brackets in them, which the types say (`TagName`, `Element`), so the first opening bracket of a
search is that of a tag, and the text up to the next one belongs to it. A closing tag is one whose
name begins with a slash, which no name does; so it is never found for an opening one
(`TagName.closing_name_ne`).

The name of a folder is between brackets like that of an element. So the folders are assumed to have
other names than the property.
-/

namespace MqExits.Otel

open CText XmlText

/-- The name of a folder or of an element. -/
@[ext]
structure TagName where
  text : Bytes
  ne_nil : text ≠ []
  left : (60 : UInt8) ∉ text
  right : (62 : UInt8) ∉ text
  slash : (47 : UInt8) ∉ text
  deriving DecidableEq

/-- An element of a folder. -/
structure Element where
  name : TagName
  value : Bytes
  left : (60 : UInt8) ∉ value
  right : (62 : UInt8) ∉ value

/-- A folder. -/
structure Folder where
  name : TagName
  elements : List Element

/-- `<name>value</name>`. -/
def Element.render (e : Element) : Bytes :=
  openTag e.name.text ++ e.value ++ closeTag e.name.text

/-- A folder is an element whose content is its elements. -/
def Folder.render (f : Folder) : Bytes :=
  openTag f.name.text ++ f.elements.flatMap Element.render ++ closeTag f.name.text

/-- The name/value text of the folders. -/
def render (folders : List Folder) : Bytes :=
  folders.flatMap Folder.render

/-- The value of the first element of a name, and the empty text where there is none. -/
def firstValue (folders : List Folder) (prop : TagName) : Bytes :=
  match (folders.flatMap Folder.elements).find? (·.name = prop) with
  | none => []
  | some e => e.value

/-! ### The tags -/

/-- The tag that opens the name, and the text behind it. -/
def TagName.opening (name : TagName) (text : Bytes) (h : (60 : UInt8) ∉ text) : Tag where
  name := name.text
  text := text
  left_name := name.left
  right_name := name.right
  left_text := h

/-- The tag that closes the name. -/
def TagName.closing (name : TagName) : Tag where
  name := 47 :: name.text
  text := []
  left_name := by simp [name.left]
  right_name := by simp [name.right]
  left_text := List.not_mem_nil

def Element.tags (e : Element) : List Tag :=
  [e.name.opening e.value e.left, e.name.closing]

def Folder.tags (f : Folder) : List Tag :=
  f.name.opening [] List.not_mem_nil :: (f.elements.flatMap Element.tags ++ [f.name.closing])

theorem markup_closing (name : TagName) : markup [name.closing] = closeTag name.text := by
  rw [markup_cons]
  show openTag (47 :: name.text) ++ ([] ++ []) = _
  rw [List.append_nil, List.append_nil]
  rfl

theorem markup_tags_element (e : Element) : markup e.tags = e.render := by
  rw [Element.tags, markup_cons, markup_closing, Element.render, List.append_assoc]
  rfl

theorem markup_flatMap {α : Type} (f : α → List Tag) (l : List α) :
    markup (l.flatMap f) = l.flatMap fun a ↦ markup (f a) := by
  rw [markup, List.flatMap_assoc]
  rfl

theorem markup_tags_folder (f : Folder) : markup f.tags = f.render := by
  rw [Folder.tags, markup_cons, markup_append, markup_closing, markup_flatMap, Folder.render]
  simp only [markup_tags_element, List.append_assoc]
  rfl

/-- **The text is the document with these tags.** -/
theorem markup_tags (folders : List Folder) :
    markup (folders.flatMap Folder.tags) = render folders := by
  rw [markup_flatMap, render]
  simp only [markup_tags_folder]

/-- No closing tag opens a name. -/
theorem TagName.closing_name_ne (name prop : TagName) : name.closing.name ≠ prop.text := by
  intro h
  refine prop.slash ?_
  rw [← h]
  exact List.mem_cons_self

theorem TagName.text_inj {name prop : TagName} : name.text = prop.text ↔ name = prop :=
  ⟨TagName.ext, congrArg TagName.text⟩

/-- Where the tags of some elements open the name. -/
theorem exists_tag_elements_iff {elements : List Element} {prop : TagName} :
    (∃ t ∈ elements.flatMap Element.tags, t.name = prop.text) ↔ ∃ e ∈ elements, e.name = prop := by
  simp only [List.mem_flatMap, Element.tags, List.mem_cons, List.not_mem_nil, or_false]
  constructor
  · rintro ⟨t, ⟨e, he, rfl | rfl⟩, ht⟩
    · exact ⟨e, he, TagName.text_inj.1 ht⟩
    · exact absurd ht (e.name.closing_name_ne prop)
  · rintro ⟨e, he, rfl⟩
    exact ⟨_, ⟨e, he, Or.inl rfl⟩, rfl⟩

/-- Where the tags of some folders open a name that is not theirs. -/
theorem exists_tag_folders_iff {folders : List Folder} {prop : TagName}
    (h : ∀ f ∈ folders, f.name ≠ prop) :
    (∃ t ∈ folders.flatMap Folder.tags, t.name = prop.text) ↔
      ∃ f ∈ folders, ∃ e ∈ f.elements, e.name = prop := by
  simp only [List.mem_flatMap, Folder.tags, List.mem_cons, List.mem_append, List.not_mem_nil,
    or_false]
  constructor
  · rintro ⟨t, ⟨f, hf, rfl | ht | rfl⟩, hname⟩
    · exact absurd (TagName.text_inj.1 hname) (h f hf)
    · exact ⟨f, hf, exists_tag_elements_iff.1 ⟨t, List.mem_flatMap.2 ht, hname⟩⟩
    · exact absurd hname (f.name.closing_name_ne prop)
  · rintro ⟨f, hf, he⟩
    obtain ⟨t, ht, hname⟩ := exists_tag_elements_iff.2 he
    exact ⟨t, ⟨f, hf, Or.inr (Or.inl (List.mem_flatMap.1 ht))⟩, hname⟩

/-! ### The property -/

/-- A text without the tag has no value for the property. -/
theorem extractRFH2PropVal_of_not_infix {props prop : Bytes} (h : ¬ openTag prop <:+: props) :
    extractRFH2PropVal props prop = [] := by
  have hnone : find props (openTag prop) 0 = none := by
    rw [find, if_pos (Nat.zero_le _), List.drop_zero, findAt_eq_none_iff.2 h]
    rfl
  have hopen : lit "<" ++ prop ++ lit ">" = openTag prop := rfl
  simp only [extractRFH2PropVal, hopen, hnone]

/-- **The value of the first element of that very name** is what the two searches find. -/
theorem extractRFH2PropVal_render {folders : List Folder} {prop : TagName}
    (hfolder : ∀ f ∈ folders, f.name ≠ prop) :
    extractRFH2PropVal (render folders) prop.text = firstValue folders prop := by
  have hfind : (folders.flatMap Folder.elements).find? (·.name = prop) =
      folders.findSome? fun f ↦ f.elements.find? (·.name = prop) := List.find?_flatMap
  rcases hfirst : folders.findSome? fun f ↦ f.elements.find? (·.name = prop) with - | e
  · -- no element has the name, so no tag opens it
    rw [firstValue, hfind, hfirst]
    refine extractRFH2PropVal_of_not_infix ?_
    rw [← markup_tags, openTag_infix_markup_iff prop.right, exists_tag_folders_iff hfolder]
    rintro ⟨f, hf, e, he, hname⟩
    have hnone := List.find?_eq_none.1 (List.findSome?_eq_none_iff.1 hfirst f hf) e he
    exact hnone (decide_eq_true hname)
  · rw [firstValue, hfind, hfirst]
    obtain ⟨folders₁, f, folders₂, rfl, hf, hbefore⟩ := List.findSome?_eq_some_iff.1 hfirst
    obtain ⟨hname, elements₁, elements₂, helements, hbefore'⟩ :=
      List.find?_eq_some_iff_append.1 hf
    obtain rfl : e.name = prop := of_decide_eq_true hname
    -- the tags before the one that opens the element, and those behind its closing one
    let before := folders₁.flatMap Folder.tags ++
      (f.name.opening [] List.not_mem_nil :: elements₁.flatMap Element.tags)
    let after := elements₂.flatMap Element.tags ++ (f.name.closing :: folders₂.flatMap Folder.tags)
    have htags : (folders₁ ++ f :: folders₂).flatMap Folder.tags =
        before ++ (e.name.opening e.value e.left :: e.name.closing :: after) := by
      simp [before, after, Folder.tags, helements, Element.tags]
    have htext : render (folders₁ ++ f :: folders₂) = markup before ++ (openTag e.name.text ++
        (e.value ++ 60 :: (47 :: e.name.text ++ [62] ++ markup after))) := by
      rw [← markup_tags, htags, markup_append, markup_cons, markup_cons]
      rfl
    rw [htext]
    refine extractRFH2PropVal_openTag e.name.left e.left ?_ _
    rw [openTag_infix_markup_iff e.name.right]
    rintro ⟨t, ht, htname⟩
    rcases List.mem_append.1 ht with ht | ht
    · have hfolder₁ : ∀ g ∈ folders₁, g.name ≠ e.name := fun g hg ↦
        hfolder g (List.mem_append_left _ hg)
      obtain ⟨g, hg, e', he', hename⟩ := (exists_tag_folders_iff hfolder₁).1 ⟨t, ht, htname⟩
      exact List.find?_eq_none.1 (hbefore g hg) e' he' (decide_eq_true hename)
    · rcases List.mem_cons.1 ht with rfl | ht
      · exact hfolder f (by simp) (TagName.text_inj.1 htname)
      · obtain ⟨e', he', hename⟩ := exists_tag_elements_iff.1 ⟨t, ht, htname⟩
        simpa [hename] using hbefore' e' he'

/-- The name in `<usr>`. -/
def usrName : TagName :=
  ⟨lit "usr", by decide, by decide, by decide, by decide⟩

/-- Its `traceparent`. -/
def traceparentName : TagName :=
  ⟨TRACEPARENT, by decide, by decide, by decide, by decide⟩

/-- A longer name. -/
def traceparent2Name : TagName :=
  ⟨TRACEPARENT ++ lit "2", by decide, by decide, by decide, by decide⟩

/-- A `usr` folder with an element of the longer name before that of the name. -/
def usrFolders : List Folder :=
  [⟨usrName, [⟨traceparent2Name, lit "x", by decide, by decide⟩,
    ⟨traceparentName, lit "00-0a-0b-01", by decide, by decide⟩]⟩]

theorem extractRFH2PropVal_render_usrFolders :
    extractRFH2PropVal (render usrFolders) TRACEPARENT = lit "00-0a-0b-01" :=
  extractRFH2PropVal_render (by decide : ∀ f ∈ usrFolders, f.name ≠ traceparentName)

end MqExits.Otel
