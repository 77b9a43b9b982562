import Depot.Proofs.Json.ReadBack
import Depot.Proofs.Text.Utf8
import Depot.Store.Json
/-!
# Data that is written and read back

Configurations and what a store tells about objects survive being written as JSON, without blanks
or over several lines, and being read again.

* `StorageConfig.readsAs_document`, `ObjectInfo.readsAs_document` — each form of data, wherever it
  stands in a text
* `json_round_trip` — whole texts, as they are printed
-/

namespace Depot

open Json

namespace Json

theorem ReadsAs.map {α β : Type} {reader : Json.Reader α} {text : List Char} {a : α}
    (h : ReadsAs reader text a) (f : α → β) :
    ReadsAs (fun s => do let (a, s) ← reader s; return (f a, s)) text (f a) := by
  refine ⟨h.starts, fun s rest hs hrest => ?_⟩
  simp [h.reads s rest hs hrest, bind, Except.bind, pure, Except.pure]

/-- What is written in either way is read back as `a`, also as a line of its own. -/
structure RoundTrip {α : Type} (reader : Json.Reader α) (document : Document) (a : α) : Prop where
  compact : readWhole reader (String.ofList document.compact) = .ok a
  pretty : readWhole reader (String.ofList document.pretty) = .ok a
  printed : readWhole reader (String.ofList document.pretty ++ "\n") = .ok a

theorem RoundTrip.of_readsAs {α : Type} {reader : Json.Reader α} {document : Document} {a : α}
    (h : ∀ style, ReadsAs reader (document.write style) a) : RoundTrip reader document a := by
  have hline : IsBlankText ['\n'] := by simp [IsBlankText, isBlank]
  have hcompact := (h .compact).readWhole isBlankText_nil
  have hpretty := (h (.pretty 0)).readWhole isBlankText_nil
  have hprinted := (h (.pretty 0)).readWhole hline
  rw [List.append_nil] at hcompact hpretty
  rw [String.ofList_append] at hprinted
  exact ⟨hcompact, hpretty, hprinted⟩

theorem readsAs_list {α : Type} {element : Json.Reader α} {document : α → Document}
    {values : List α}
    (h : ∀ a ∈ values, ∀ style, ReadsAs element ((document a).write style) a) (style : Style) :
    ReadsAs (readList element) ((Document.list (values.map document)).write style) values := by
  obtain ⟨l, hl⟩ := Document.exists_write_list (values.map document) style
  rw [hl, List.map_map]
  refine readsAs_listText l ?_
  rw [List.forall₂_map_left_iff]
  exact List.forall₂_same.2 fun a ha => h a ha style.inner

end Json

namespace BackendKind

theorem readsAs_document (kind : BackendKind) (style : Style) :
    ReadsAs readJson (kind.document.write style) kind := by
  rw [document, Document.write_text]
  exact readsAs_choice (ofName?_name kind)

end BackendKind

namespace FsConfig

def IsText (c : FsConfig) : Prop := ∃ text, c.path = .ofString text

theorem serialize_eq_ok_iff {c : FsConfig} {d : Document} :
    c.serialize = .ok d ↔ c.IsText ∧ c.document = d := by
  rw [serialize]
  constructor
  · intro h
    split at h
    · rename_i text htext
      refine ⟨⟨text, ?_⟩, Except.ok.inj h⟩
      rw [Pathname.ofString, Bytes.ofString_of_text? htext]
    · cases h
  · rintro ⟨⟨text, hpath⟩, rfl⟩
    rw [hpath, Pathname.ofString, Bytes.text?_ofString]

theorem readsAs_document {c : FsConfig} (h : c.IsText) (style : Style) :
    ReadsAs readJson (c.document.write style) c := by
  obtain ⟨path⟩ := c
  obtain ⟨text, rfl⟩ : ∃ text, path = .ofString text := h
  have hdisplay : (Pathname.ofString text).display = text := Bytes.lossy_ofString text
  have htakes : shape.Takes none [("path", writeString text)] (some (.ofString text)) :=
    .cons (by rfl) rfl ((readsAs_text "path string" text).map fun text =>
      some (Pathname.ofString text)) (.nil _)
  have hrecord := Shape.readsAs_recordText style.layout htakes rfl
  rw [document, Document.write_record, hdisplay]
  simp only [Document.write_text, List.map_cons, List.map_nil]
  exact hrecord.map fun path => (⟨path.getD .empty⟩ : FsConfig)

end FsConfig

namespace StorageConfig

/-- The path in it, if there is one, is text. -/
def IsText (c : StorageConfig) : Prop := ∀ files ∈ c.filesystem, files.IsText

theorem serialize_eq_ok_iff {c : StorageConfig} {d : Document} :
    c.serialize = .ok d ↔ c.IsText ∧ c.document = d := by
  obtain ⟨kind, section?⟩ := c
  cases section? with
  | none => simp [serialize, IsText, pure, Except.pure]
  | some files =>
      have htext : (⟨kind, some files⟩ : StorageConfig).IsText ↔ files.IsText := by
        simp only [IsText, Option.mem_some_iff, forall_eq']
      rw [htext, serialize]
      cases hfiles : files.serialize with
      | ok d' =>
          have hfiles' := (FsConfig.serialize_eq_ok_iff.1 hfiles).1
          simp [hfiles, hfiles', bind, Except.bind, pure, Except.pure]
      | error e =>
          have hfiles' : ¬ files.IsText := fun h => by
            rw [FsConfig.serialize_eq_ok_iff.2 ⟨h, rfl⟩] at hfiles
            cases hfiles
          simp [hfiles, hfiles', bind, Except.bind]

theorem readsAs_document {c : StorageConfig} (h : c.IsText) (style : Style) :
    ReadsAs readJson (c.document.write style) c := by
  obtain ⟨kind, section?⟩ := c
  have hkind : ReadsAs (shape.members[0].read ⟨none, none⟩) (kind.document.write style.inner)
      ⟨some kind, none⟩ :=
    (kind.readsAs_document style.inner).map fun kind => (⟨some kind, none⟩ : Partial)
  cases section? with
  | none =>
    have htakes : shape.Takes ⟨none, none⟩ [("type", kind.document.write style.inner)]
        ⟨some kind, none⟩ := .cons (by rfl) rfl hkind (.nil _)
    have hrecord := Shape.readsAs_recordText style.layout htakes rfl
    rw [document, Document.write_record]
    exact hrecord.map fun c => (⟨c.kind.getD .filesystem, c.filesystem.getD none⟩ : StorageConfig)
  | some files =>
    have hfiles : ReadsAs (shape.members[1].read ⟨some kind, none⟩)
        (files.document.write style.inner) ⟨some kind, some (some files)⟩ := by
      have hvalue := (FsConfig.readsAs_document (h files rfl) style.inner).optional
        (by rw [FsConfig.document, Document.write_record]; simp [recordText])
      exact hvalue.map fun files => (⟨some kind, some files⟩ : Partial)
    have htakes : shape.Takes ⟨none, none⟩
        [("type", kind.document.write style.inner),
          ("filesystem", files.document.write style.inner)]
        ⟨some kind, some (some files)⟩ :=
      .cons (by rfl) rfl hkind (.cons (by rfl) rfl hfiles (.nil _))
    have hrecord := Shape.readsAs_recordText style.layout htakes rfl
    rw [document, Document.write_record]
    exact hrecord.map fun c => (⟨c.kind.getD .filesystem, c.filesystem.getD none⟩ : StorageConfig)

end StorageConfig

namespace ObjectInfo

theorem readsAs_document {info : ObjectInfo} (h : info.size < wordSize 64) (style : Style) :
    ReadsAs readJson (info.document.write style) info := by
  have hname : ReadsAs (shape.members[0].read ⟨none, none⟩) (writeString info.name)
      ⟨some info.name, none⟩ :=
    (readsAs_text "a string" info.name).map fun name => (⟨some name, none⟩ : Partial)
  have hsize : ReadsAs (shape.members[1].read ⟨some info.name, none⟩)
      (Nat.toDigits 10 info.size) ⟨some info.name, some info.size⟩ :=
    (readsAs_natural h).map fun size => (⟨some info.name, some size⟩ : Partial)
  have htakes : shape.Takes ⟨none, none⟩
      [("name", writeString info.name), ("size", Nat.toDigits 10 info.size)]
      ⟨some info.name, some info.size⟩ :=
    .cons (by rfl) rfl hname (.cons (by rfl) rfl hsize (.nil _))
  have hrecord := Shape.readsAs_recordText style.layout htakes rfl
  rw [document, Document.write_record]
  simp only [Document.write_text, Document.write_natural, List.map_cons, List.map_nil]
  exact hrecord.map fun info => (⟨info.name.getD "", info.size.getD 0⟩ : ObjectInfo)

end ObjectInfo

/-- Configurations, sections of them, and what is told about objects, one or many of them, are read
back from the JSON that they are written as, and a section that is absent is not written. -/
theorem json_round_trip :
    (∀ c : StorageConfig, c.IsText →
      c.serialize = .ok c.document ∧ RoundTrip StorageConfig.readJson c.document c) ∧
    (∀ c : FsConfig, c.IsText →
      c.serialize = .ok c.document ∧ RoundTrip FsConfig.readJson c.document c) ∧
    (∀ kind : BackendKind, RoundTrip BackendKind.readJson kind.document kind) ∧
    (∀ info : ObjectInfo, info.size < wordSize 64 →
      RoundTrip ObjectInfo.readJson info.document info) ∧
    (∀ infos : List ObjectInfo, (∀ info ∈ infos, info.size < wordSize 64) →
      RoundTrip (readList ObjectInfo.readJson) (.list (infos.map ObjectInfo.document)) infos) ∧
    (∀ c : StorageConfig, ∃ members, c.document = .record members ∧
      ("filesystem" ∈ members.map Prod.fst ↔ c.filesystem ≠ none)) := by
  refine ⟨fun c hc => ⟨StorageConfig.serialize_eq_ok_iff.2 ⟨hc, rfl⟩,
      .of_readsAs (c.readsAs_document hc)⟩,
    fun c hc => ⟨FsConfig.serialize_eq_ok_iff.2 ⟨hc, rfl⟩,
      .of_readsAs (FsConfig.readsAs_document hc)⟩,
    fun kind => .of_readsAs kind.readsAs_document,
    fun info hinfo => .of_readsAs (ObjectInfo.readsAs_document hinfo),
    fun infos hinfos => .of_readsAs (readsAs_list fun info hinfo =>
      ObjectInfo.readsAs_document (hinfos info hinfo)),
    fun c => ⟨_, rfl, ?_⟩⟩
  cases c.filesystem <;> simp

/-- A quote, a backslash, control characters and a character beyond the first plane, in a path and
in a name, and the largest size. -/
theorem json_round_trip_of_escapes :
    let text := String.ofList ['"', '\\', '\n', '\x01', '\x7f', Char.ofNat 0x1F600]
    let infos : List ObjectInfo := [⟨text, wordSize 64 - 1⟩, ⟨"", 0⟩]
    RoundTrip StorageConfig.readJson (StorageConfig.atPath (.ofString text)).document
      (.atPath (.ofString text)) ∧
    RoundTrip FsConfig.readJson (FsConfig.mk (.ofString text)).document ⟨.ofString text⟩ ∧
    RoundTrip ObjectInfo.readJson (infos[0]).document infos[0] ∧
    RoundTrip (readList ObjectInfo.readJson) (.list (infos.map ObjectInfo.document)) infos := by
  intro text infos
  have hsizes : ∀ info ∈ infos, info.size < wordSize 64 := by
    simp [infos, wordSize]
  refine ⟨(json_round_trip.1 _ ?_).2, (json_round_trip.2.1 _ ⟨text, rfl⟩).2,
    json_round_trip.2.2.2.1 _ (hsizes _ (List.getElem_mem _)),
    json_round_trip.2.2.2.2.1 infos hsizes⟩
  rintro files ⟨rfl⟩
  exact ⟨text, rfl⟩

end Depot
