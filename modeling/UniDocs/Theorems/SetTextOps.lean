import UniDocs.Lemmas.LayerEdits
import UniDocs.Lemmas.RunCutting
import UniDocs.Psd.Layer
import UniDocs.Psd.SetText

/-!
# The operation of the tool that changes words

The tool copies the old description and splits the run lists again that are not empty; the handler checks every list that is
present. Where the lengths of runs are whole numbers, the handler accepts the operation, the lists cover the new content and
the pixels fill the new box exactly where what the description has for a run list is a list that is not empty, and no run goes
backwards outside the replaced interval.
-/

namespace UniDocs.Psd

open Lib Lib.Runs

/-! ## Entries -/

theorem lookup_setEntry (key key' : String) (value : Value) (entries : List (String × Value)) :
    (setEntry key value entries).lookup key' = if key' = key then some value else entries.lookup key' := by
  induction entries with
  | nil =>
    by_cases h : key' = key
    · simp [setEntry, h]
    · simp [setEntry, List.lookup_cons, beq_false_of_ne h, h]
  | cons entry entries ih =>
    obtain ⟨k, v⟩ := entry
    rw [setEntry]
    by_cases hk : k = key
    · subst hk
      rw [if_pos rfl]
      by_cases h : key' = k
      · simp [h]
      · simp [List.lookup_cons, h, beq_false_of_ne h]
    · rw [if_neg hk]
      by_cases h : key' = k
      · subst h
        simp [hk]
      · simp [List.lookup_cons, beq_false_of_ne h, ih]

theorem lookup_deleteEntry {key key' : String} (hne : key' ≠ key) (entries : List (String × Value)) :
    (deleteEntry key entries).lookup key' = entries.lookup key' := by
  induction entries with
  | nil => rfl
  | cons entry entries ih =>
    obtain ⟨k, v⟩ := entry
    rw [deleteEntry] at ih ⊢
    by_cases hk : k = key
    · subst hk
      rw [List.filter_cons_of_neg (by simp), ih, List.lookup_cons, beq_false_of_ne hne]
    · rw [List.filter_cons_of_pos (by simpa using hk), List.lookup_cons, List.lookup_cons, ih]

theorem get_set (key key' : String) (value : Value) (fields : LayerFields) :
    (fields.set key value).get key' = if key' = key then value else fields.get key' := by
  rw [LayerFields.set, LayerFields.get, lookup_setEntry]
  split
  · rfl
  · rfl

theorem get_delete {key key' : String} (hne : key' ≠ key) (fields : LayerFields) :
    (fields.delete key).get key' = fields.get key' := by
  rw [LayerFields.delete, LayerFields.get, lookup_deleteEntry hne]
  rfl

theorem get_dropBakedText {key : String} (hne : key ≠ "degraded") (fields : LayerFields) :
    (dropBakedText fields).get key = fields.get key := by
  rw [dropBakedText]
  split
  · dsimp only
    split
    · exact get_delete hne fields
    · rw [get_set, if_neg hne]
  · rfl

theorem get_object (key : String) (value : Value) : (Value.object (entriesOf value)).get key = value.get key := by
  cases value <;> rfl

/-! ## Lengths -/

theorem utf16Length_eq (text : String) : utf16Length text = (JsString.ofString text).length := by
  rw [utf16Length, JsString.ofString, List.length_flatMap]
  congr 1
  refine List.map_congr_left fun c _ => ?_
  rw [JsString.charUnits]
  split <;> rfl

theorem foldl_finite (lengths : List ℚ) (start : ℚ) :
    (lengths.map Number.finite).foldl Number.add (.finite start) = .finite (start + lengths.sum) := by
  induction lengths generalizing start with
  | nil => simp
  | cons length lengths ih =>
    rw [List.map_cons, List.foldl_cons, Number.add, ih, List.sum_cons, add_assoc]

theorem checkRuns_array {name : String} {items : List Value} {length : Nat} :
    checkRuns name (.array items) length = .ok () ↔ (items.map runLength).foldl Number.add (.finite 0) = .finite length := by
  simp only [checkRuns, Value.truthy, runLengths, requireOf, Bool.not_true, Bool.false_eq_true, if_false]
  split
  · rename_i h
    simpa using h
  · rename_i h
    simpa using h

theorem runLength_runValue (run : Run ℚ Value) : runLength (runValue run) = .finite run.length := rfl

theorem checkRuns_spliced {name : String} {new : List (Run ℚ Value)} {length : Nat} :
    checkRuns name (.array (new.map runValue)) length = .ok () ↔ total new = length := by
  rw [checkRuns_array, List.map_map, show runLength ∘ runValue = Number.finite ∘ Run.length from funext runLength_runValue,
    ← List.map_map, foldl_finite, zero_add, Number.finite.injEq]
  rfl

/-! ## The operation that comes out -/

/-- What becomes of one run list of the description. -/
def ListSpliced (list : String) (old : Value) (range : Replacement) (contentLength : Nat) (next : Value) : Prop :=
  (∃ items runs new, old.get list = .array items ∧ items ≠ [] ∧ items.mapM finiteRun = some runs ∧
      spliceRuns runs range contentLength = .ok new ∧ next = .array (new.map runValue)) ∨
    ((∀ items, old.get list = .array items → items = []) ∧ next = old.get list)

theorem spliceEntry_ok {list : String} {old : Value} {range : Replacement} {contentLength : Nat}
    {next out : List (String × Value)} (hcopied : (Value.object next).get list = old.get list)
    (h : spliceEntry list old range contentLength next = .ok out) :
    ListSpliced list old range contentLength ((Value.object out).get list) ∧
      ∀ key, key ≠ list → (Value.object out).get key = (Value.object next).get key := by
  rw [spliceEntry] at h
  split at h
  · rename_i item items hitems
    rw [spliceValues] at h
    cases hruns : (item :: items).mapM finiteRun with
    | none =>
      rw [hruns] at h
      cases h
    | some runs =>
      rw [hruns] at h
      cases hnew : spliceRuns runs range contentLength with
      | error error =>
        simp only [hnew] at h
        cases h
      | ok new =>
        simp only [hnew, Except.ok.injEq] at h
        subst h
        refine ⟨Or.inl ⟨item :: items, runs, new, hitems, by simp, hruns, hnew, ?_⟩, fun key hne => ?_⟩
        · rw [Value.get, lookup_setEntry, if_pos rfl]
          rfl
        · rw [Value.get, lookup_setEntry, if_neg hne]
          rfl
  · cases h
  · rename_i hnot _
    split at h
    · cases h
    · cases h
      refine ⟨Or.inr ⟨fun items hitems => ?_, hcopied⟩, fun _ _ => rfl⟩
      cases items with
      | nil => rfl
      | cons item items => exact absurd hitems (hnot item items)

theorem nextText_ok {old next : Value} {oldContent newContent : String} (h : nextText old oldContent newContent = .ok next) :
    next.get "content" = .string newContent ∧ ∀ list ∈ ["runs", "paragraphRuns"],
      ListSpliced list old (diffRange (JsString.ofString oldContent) (JsString.ofString newContent))
        (JsString.ofString oldContent).length (next.get list) := by
  have hcopy : ∀ key, key ≠ "content" →
      (Value.object (setEntry "content" (.string newContent) (entriesOf old))).get key = old.get key := fun key hne => by
    rw [Value.get, lookup_setEntry, if_neg hne]
    exact get_object key old
  rw [nextText] at h
  split at h
  · cases h
  · rename_i first hfirst
    obtain ⟨hruns, hkept⟩ := spliceEntry_ok (hcopy "runs" (by decide)) hfirst
    split at h
    · cases h
    · rename_i second hsecond
      cases h
      have hcopied : (Value.object first).get "paragraphRuns" = old.get "paragraphRuns" := by
        rw [hkept "paragraphRuns" (by decide), hcopy "paragraphRuns" (by decide)]
      obtain ⟨hparagraphs, hstays⟩ := spliceEntry_ok hcopied hsecond
      refine ⟨?_, fun list hlist => ?_⟩
      · rw [hstays "content" (by decide), hkept "content" (by decide), Value.get, lookup_setEntry, if_pos rfl]
        rfl
      · rcases List.mem_pair.mp hlist with rfl | rfl
        · rw [hstays "runs" (by decide)]
          exact hruns
        · exact hparagraphs

/-- The PNG encoder takes only images with whole numbers of pixels in both directions. -/
def SetTextEnv.EncodesPixels (env : SetTextEnv) : Prop :=
  ∀ text width height blob, env.writePng text width height = some blob →
    ∃ w h : Nat, width = .finite w ∧ height = .finite h

theorem sub_finite {a b : Number} {c : ℚ} (h : a.sub b = .finite c) : ∃ x y, a = .finite x ∧ b = .finite y ∧ c = x - y := by
  cases a with
  | finite x =>
    cases b with
    | finite y => exact ⟨x, y, rfl, rfl, by rw [sub_eq_add_neg]; exact (Number.finite.inj h).symm⟩
    | infinite _ => cases h
    | nan => cases h
  | infinite negative =>
    cases b with
    | finite y => cases h
    | infinite other =>
      rw [Number.sub, Number.neg, Number.add] at h
      split at h <;> cases h
    | nan => cases h
  | nan => cases b <;> cases h

/-- The pixels have the width and the height of the box. -/
def PixelsFit (bounds pixels : Value) : Prop :=
  ∃ top left bottom right : ℚ, bounds = .array [.number (.finite top), .number (.finite left), .number (.finite bottom),
      .number (.finite right)] ∧
    pixels.get "width" = .number (.finite (right - left)) ∧ pixels.get "height" = .number (.finite (bottom - top))

theorem typeset_ok {env : SetTextEnv} (hpng : env.EncodesPixels) {layerId newContent : String} {next : Value}
    {oldTop oldLeft oldRight : Number} {op : SetTextPayload}
    (h : typeset env layerId newContent next oldTop oldLeft oldRight = .ok op) :
    op.layerId = layerId ∧ op.text = next ∧ PixelsFit op.bounds op.pixels := by
  rw [typeset] at h
  split at h
  · cases h
  · split at h
    · cases h
    · split at h
      · cases h
      · dsimp only at h
        split at h
        · cases h
        · split at h
          · cases h
          · rename_i blob hblob
            obtain ⟨width, height, hwidth, hheight⟩ := hpng _ _ _ _ hblob
            obtain ⟨right, left, hright, hleft, hw⟩ := sub_finite hwidth
            obtain ⟨bottom, top, hbottom, htop, hh⟩ := sub_finite hheight
            cases h
            refine ⟨rfl, rfl, top, left, bottom, right, ?_, ?_, ?_⟩
            · rw [hright, hleft, hbottom, htop]
            · rw [hwidth, hw]
              rfl
            · rw [hheight, hh]
              rfl

theorem setTextTool_ok {env : SetTextEnv} (hpng : env.EncodesPixels) {doc : PsdDoc} {layerId newContent : String}
    {op : SetTextPayload} (h : setTextTool env doc layerId newContent = .ok op) :
    (JsString.ofString newContent).length ≠ 0 ∧ ∃ position layer oldContent,
      findLayer doc.layers layerId = some (position, layer) ∧ layer.value.type = .text ∧
      (layer.value.get "text").get "content" = .string oldContent ∧
      nextText (layer.value.get "text") oldContent newContent = .ok op.text ∧ op.layerId = layerId ∧
      PixelsFit op.bounds op.pixels := by
  rw [setTextTool] at h
  split at h
  · cases h
  · rename_i hne
    refine ⟨hne, ?_⟩
    split at h
    · cases h
    · rename_i position layer hfound
      rw [retype] at h
      split at h
      · cases h
      · split at h
        · cases h
        · rename_i htype
          rw [not_not] at htype
          split at h
          · rename_i oldContent hcontent
            split at h
            · cases h
            · split at h
              · cases h
              · rename_i next hnext
                obtain ⟨hid, htext, hfit⟩ := typeset_ok hpng h
                exact ⟨position, layer, oldContent, hfound, htype, hcontent, by rw [htext]; exact hnext, hid, hfit⟩
          · cases h

/-! ## Applying the operation -/

/-- What a description has for a run list lets the tool's operation through: it is a list that is not empty, and no run of it
goes backwards outside the replaced interval. -/
def RunsFit (text : Value) (list : String) (range : Replacement) : Prop :=
  (text.get list).truthy = true → ∃ items, text.get list = .array items ∧ items ≠ [] ∧
    ∀ runs, items.mapM finiteRun = some runs → BackwardInside range runs

/-- Run lengths that are whole numbers, of sizes that add up to at most 2^53: doubles add them exactly. -/
def WholeLengths (items : List Value) : Prop :=
  ∃ lengths : List Int, items.map runLength = lengths.map (fun length => .finite length) ∧
    (lengths.map Int.natAbs).sum ≤ 2 ^ 53

/-- A text layer with its new content: the run lists it has cover the content, and the pixels fill the box. -/
structure Retyped (content : String) (fields : LayerFields) : Prop where
  written : (fields.get "text").get "content" = .string content
  covered : ∀ list ∈ ["runs", "paragraphRuns"], ∀ items, (fields.get "text").get list = .array items →
    (items.map runLength).foldl Number.add (.finite 0) = .finite (utf16Length content)
  pixels : PixelsFit (fields.get "bounds") (fields.get "pixels")

/-- The handler accepts an operation of the tool on the document, and the layer it writes to has the new content. -/
def Applies (doc : PsdDoc) (op : SetTextPayload) (content : String) : Prop :=
  ∃ doc' position layer, applyOne doc (.setText op) = .ok doc' ∧
    findLayer doc'.layers op.layerId = some (position, layer) ∧ Retyped content layer.value

theorem mapM_ne_nil {items : List Value} {runs : List (Run ℚ Value)} (hne : items ≠ [])
    (h : items.mapM finiteRun = some runs) : runs ≠ [] := by
  cases items with
  | nil => exact absurd rfl hne
  | cons item items =>
    rw [List.mapM_cons] at h
    cases hfirst : finiteRun item with
    | none => simp [hfirst] at h
    | some run =>
      cases hrest : items.mapM finiteRun with
      | none => simp [hfirst, hrest] at h
      | some rest =>
        rw [hfirst, hrest] at h
        cases h
        exact List.cons_ne_nil _ _

/-- The handler's check of one run list of the new description. -/
theorem checkRuns_iff {name list : String} {old next : Value} {before after : JsString} (hafter : after.length ≠ 0)
    (h : ListSpliced list old (diffRange before after) before.length next) :
    checkRuns name next after.length = .ok () ↔ RunsFit old list (diffRange before after) := by
  have hdiff := diffRange_diff before after
  rcases h with ⟨items, runs, new, hitems, hne, hruns, hnew, rfl⟩ | ⟨hempty, rfl⟩
  · rw [checkRuns_spliced, spliced_total hdiff.start_le hdiff.stop_le hdiff.lengths (mapM_ne_nil hne hruns) hnew]
    constructor
    · intro hinside _
      refine ⟨items, hitems, hne, fun runs' hruns' => ?_⟩
      rw [hruns] at hruns'
      cases hruns'
      exact hinside
    · intro hfit
      obtain ⟨items', hitems', _, hinside⟩ := hfit (by rw [hitems]; rfl)
      rw [hitems] at hitems'
      cases hitems'
      exact hinside runs hruns
  · by_cases htruthy : (old.get list).truthy = true
    · -- A list that is there and was not split again does not cover the new content.
      have hrefused : ∀ value : Value, value.truthy = true → (∀ items, value = .array items → items = []) →
          checkRuns name value after.length ≠ .ok () := by
        intro value hvalue hnil hok
        have hzero : Number.finite 0 ≠ .finite after.length := fun heq =>
          hafter (by exact_mod_cast (Number.finite.inj heq).symm)
        simp only [checkRuns, hvalue, Bool.not_true, Bool.false_eq_true, if_false] at hok
        cases value with
        | array items =>
          obtain rfl := hnil items rfl
          simp [runLengths, requireOf, hzero] at hok
        | bytes bytes => cases bytes <;> simp [runLengths, requireOf, Number.add, hzero] at hok
        | _ => cases hok
      refine ⟨fun hok => absurd hok (hrefused _ htruthy hempty), fun hfit => ?_⟩
      obtain ⟨items, hitems, hne, _⟩ := hfit htruthy
      exact absurd (hempty items hitems) hne
    · have hpass : checkRuns name (old.get list) after.length = .ok () := by
        rw [checkRuns, if_pos (by simpa using htruthy)]
      exact ⟨fun _ hset => absurd hset htruthy, fun _ => hpass⟩

theorem setTextFields_iff {op : SetTextPayload} {fields fields' : LayerFields} {content : String} (htype : fields.type = .text)
    (hcontent : op.text.get "content" = .string content) (hbounds : isBounds op.bounds = true) :
    setTextFields op fields = .ok fields' ↔
      checkRuns "runs" (op.text.get "runs") (utf16Length content) = .ok () ∧
        checkRuns "paragraphRuns" (op.text.get "paragraphRuns") (utf16Length content) = .ok () ∧
        fields' = dropBakedText ((((fields.set "text" op.text).set "pixels" op.pixels).set "bounds" op.bounds).set "provenance"
          op.provenance) := by
  simp only [setTextFields, bind_ok_iff, pure_ok_iff, require, hbounds, htype, hcontent, if_true, exists_const, decide_true]
  constructor
  · rintro ⟨_, _, _, _, hruns, _, hparagraphs, _, hfields⟩
    exact ⟨hruns, hparagraphs, hfields⟩
  · rintro ⟨hruns, hparagraphs, hfields⟩
    exact ⟨trivial, (), rfl, (), hruns, (), hparagraphs, trivial, hfields⟩

theorem setText_layers {doc doc' : PsdDoc} {op : SetTextPayload} :
    setText doc op = .ok doc' →
      ∃ edited, editLayer doc op.layerId "set_text: layer not found: " (editFields (setTextFields op)) = .ok edited ∧
        doc'.layers = edited.layers := by
  intro h
  obtain ⟨edited, hedited, hlast⟩ := bind_ok_iff.mp h
  refine ⟨edited, hedited, ?_⟩
  rw [pure_ok_iff.mp hlast]
  split <;> rfl

theorem isBounds_of_fit {bounds pixels : Value} (h : PixelsFit bounds pixels) : isBounds bounds = true := by
  obtain ⟨top, left, bottom, right, rfl, _⟩ := h
  rfl

/-- Where doubles add the lengths of the layer's runs exactly, the handler accepts the operation of the tool, made from the
layer in the document, and the layer then has run lists that cover the content and pixels of the size of its box, exactly where
the run lists of the old description let it through. -/
theorem setText_applies_iff {env : SetTextEnv} (hpng : env.EncodesPixels) {doc : PsdDoc} {layerId newContent : String}
    {op : SetTextPayload} (h : setTextTool env doc layerId newContent = .ok op)
    (_hwhole : ∀ position layer, findLayer doc.layers layerId = some (position, layer) → ∀ list ∈ ["runs", "paragraphRuns"],
      ∀ items, (layer.value.get "text").get list = .array items → WholeLengths items) :
    Applies doc op newContent ↔
      ∀ position layer oldContent, findLayer doc.layers layerId = some (position, layer) →
        (layer.value.get "text").get "content" = .string oldContent →
        ∀ list ∈ ["runs", "paragraphRuns"], RunsFit (layer.value.get "text") list
          (diffRange (JsString.ofString oldContent) (JsString.ofString newContent)) := by
  obtain ⟨hne, position, layer, oldContent, hfound, htype, hcontent, hnext, hid, hfit⟩ := setTextTool_ok hpng h
  obtain ⟨hwritten, hlists⟩ := nextText_ok hnext
  have hbounds := isBounds_of_fit hfit
  have hcheck : ∀ name, ∀ list ∈ ["runs", "paragraphRuns"],
      (checkRuns name (op.text.get list) (utf16Length newContent) = .ok () ↔
        RunsFit (layer.value.get "text") list (diffRange (JsString.ofString oldContent) (JsString.ofString newContent))) := by
    intro name list hlist
    rw [utf16Length_eq]
    exact checkRuns_iff hne (hlists list hlist)
  have hleft : Applies doc op newContent ↔
      checkRuns "runs" (op.text.get "runs") (utf16Length newContent) = .ok () ∧
        checkRuns "paragraphRuns" (op.text.get "paragraphRuns") (utf16Length newContent) = .ok () := by
    obtain ⟨fields, children⟩ := layer
    constructor
    · rintro ⟨doc', _, _, happly, _, _⟩
      obtain ⟨edited, hedited, _⟩ := setText_layers (show setText doc op = .ok doc' from happly)
      rw [editLayer, hid, hfound] at hedited
      obtain ⟨layer', hlayer, _⟩ := bind_ok_iff.mp hedited
      obtain ⟨fields', hfields, _⟩ := bind_ok_iff.mp hlayer
      obtain ⟨hruns, hparagraphs, _⟩ := (setTextFields_iff htype hwritten hbounds).mp hfields
      exact ⟨hruns, hparagraphs⟩
    · rintro ⟨hruns, hparagraphs⟩
      set fields' := dropBakedText ((((fields.set "text" op.text).set "pixels" op.pixels).set "bounds" op.bounds).set
        "provenance" op.provenance) with hfields'
      have hfields : setTextFields op fields = .ok fields' :=
        (setTextFields_iff htype hwritten hbounds).mpr ⟨hruns, hparagraphs, rfl⟩
      have hget : ∀ key, key ≠ "degraded" → fields'.get key = if key = "provenance" then op.provenance
          else if key = "bounds" then op.bounds else if key = "pixels" then op.pixels
          else if key = "text" then op.text else fields.get key := by
        intro key hkey
        rw [hfields', get_dropBakedText hkey, get_set, get_set, get_set, get_set]
      have hedit : editLayer doc op.layerId "set_text: layer not found: " (editFields (setTextFields op)) =
          .ok { doc with layers := RoseTree.modifyAt (fun _ => .node fields' children) position doc.layers } := by
        rw [editLayer, hid, hfound]
        dsimp only
        rw [editFields, hfields]
        rfl
      have hlayers : ∃ doc', setText doc op = .ok doc' ∧
          doc'.layers = RoseTree.modifyAt (fun _ => .node fields' children) position doc.layers := by
        rw [setText, hedit]
        refine ⟨_, rfl, ?_⟩
        split <;> rfl
      obtain ⟨doc', hset, hdoc⟩ := hlayers
      have hsame : fields'.id = layerId := by
        rw [hfields', dropBakedText_id]
        exact (findLayer_sound hfound).2
      refine ⟨doc', position, .node fields' children, hset, ?_, ?_⟩
      · rw [hdoc, hid]
        exact findLayer_modifyAt (show (RoseTree.node fields' children).value.id = layerId from hsame) hfound
      · have htext : fields'.get "text" = op.text := hget "text" (by decide)
        refine ⟨?_, fun list hlist items hitems => ?_, ?_⟩
        · rw [RoseTree.value_node, htext]
          exact hwritten
        · rw [RoseTree.value_node, htext] at hitems
          rcases List.mem_pair.mp hlist with rfl | rfl
          · exact checkRuns_array.mp (hitems ▸ hruns)
          · exact checkRuns_array.mp (hitems ▸ hparagraphs)
        · rw [RoseTree.value_node, show fields'.get "bounds" = op.bounds from hget "bounds" (by decide),
            show fields'.get "pixels" = op.pixels from hget "pixels" (by decide)]
          exact hfit
  rw [hleft, hcheck "runs" "runs" (by simp), hcheck "paragraphRuns" "paragraphRuns" (by simp)]
  constructor
  · rintro ⟨hruns, hparagraphs⟩ position' layer' content hfound' hcontent' list hlist
    rw [hfound] at hfound'
    cases hfound'
    rw [hcontent] at hcontent'
    cases hcontent'
    rcases List.mem_pair.mp hlist with rfl | rfl
    · exact hruns
    · exact hparagraphs
  · intro hall
    have hlist := hall position layer oldContent hfound hcontent
    exact ⟨hlist "runs" (by simp), hlist "paragraphRuns" (by simp)⟩

/-! ## An empty run list -/

/-- A file with one text layer. -/
def letterFile : AgPsd Unit :=
  ⟨8, 8, some 8, some 3, some [.node ⟨some "t", ()⟩ none]⟩

/-- The text of the layer has one letter in one run. -/
def letterMapping : PropertyMapping Unit where
  type := fun _ => .text
  props := fun _ _ _ _ => [("bounds", .array [natValue 0, natValue 0, natValue 4, natValue 4]),
    ("text", .object [("content", .string "a"), ("runs", .array [.object [("length", natValue 1), ("style", .object [])]])])]

/-- An operation that leaves the text without letters and its run list without runs. -/
def clearText : SetTextPayload where
  layerId := "l0_t"
  text := .object [("content", .string ""), ("runs", .array [])]
  pixels := .object [("width", natValue 4), ("height", natValue 4), ("hash", .string "p")]
  bounds := .array [natValue 0, natValue 0, natValue 4, natValue 4]
  provenance := .object [("model", .string "painter"), ("prompt", .string "")]

/-- One glyph of two by two pixels. -/
def glyphEnv : SetTextEnv where
  loadFonts := fun _ => some []
  layoutText := fun _ => .placed 1 (.finite 0) (.finite 0) (.finite 2) (.finite 2)
  writePng := fun _ width height =>
    match width, height with
    | .finite w, .finite h => if w = 2 ∧ h = 2 then some ⟨"q", .null⟩ else none
    | _, _ => none

theorem glyphEnv_encodes : glyphEnv.EncodesPixels := by
  intro text width height blob h
  rw [SetTextEnv.writePng, glyphEnv] at h
  dsimp only at h
  split at h
  · split at h
    · rename_i hsize
      exact ⟨2, 2, by rw [hsize.1]; rfl, by rw [hsize.2]; rfl⟩
    · cases h
  · cases h

/-- The document of the file. -/
def letterDoc : PsdDoc where
  canvas := [("width", natValue 8), ("height", natValue 8), ("colorMode", .string "RGB"), ("depth", natValue 8),
    ("resolution", natValue 72), ("profile", .string "sRGB")]
  layers := mapLayers letterMapping 8 8 [.node ⟨some "t", ()⟩ none] 0

/-- The layer of the file takes a new letter. -/
theorem setText_applies_letter : ∃ op, setTextTool glyphEnv letterDoc "l0_t" "b" = .ok op ∧ Applies letterDoc op "b" := by
  obtain ⟨op, hop, _⟩ := exists_ok (x := setTextTool glyphEnv letterDoc "l0_t" "b") (fun _ => ()) (b := ())
    (by with_unfolding_all decide)
  have hlayer : findLayer letterDoc.layers "l0_t" =
      some (⟨[], 0⟩, .node (mapFields letterMapping 8 8 ⟨some "t", ()⟩ 0 false) none) := by
    rw [letterDoc, mapLayers, findLayer_cons, mapLayer, if_pos (by decide)]
  refine ⟨op, hop, (setText_applies_iff glyphEnv_encodes hop ?_).mpr ?_⟩
  · intro position layer hfound list hlist items hitems
    rw [hlayer] at hfound
    cases hfound
    rcases List.mem_pair.mp hlist with rfl | rfl
    · cases hitems
      exact ⟨[1], rfl, by decide⟩
    · cases hitems
  · intro position layer oldContent hfound _ list hlist hset
    rw [hlayer] at hfound
    cases hfound
    rcases List.mem_pair.mp hlist with rfl | rfl
    · refine ⟨_, rfl, List.cons_ne_nil _ _, fun runs hruns => backwardInside_of_nonNeg ?_⟩
      cases hruns
      intro run hrun
      rw [List.mem_singleton.mp hrun]
      exact Nat.cast_nonneg 1
    · cases hset

/-- The document after its one letter was removed. -/
def clearedDoc : PsdDoc := step letterDoc (.setText clearText)

/-- The tool hands over an operation for the layer whose text was cleared, and the handler does not accept it. -/
theorem setText_applies_false : load letterMapping letterFile = .ok letterDoc ∧
    applyOne letterDoc (.setText clearText) = .ok clearedDoc ∧
    ∃ op, setTextTool glyphEnv clearedDoc "l0_t" "b" = .ok op ∧ ¬ Applies clearedDoc op "b" := by
  refine ⟨rfl, ?_, ?_⟩
  · obtain ⟨doc, hdoc, _⟩ := exists_ok (x := applyOne letterDoc (.setText clearText)) (fun _ => ()) (b := ())
      (by decide)
    rw [clearedDoc, step, hdoc]
  · obtain ⟨op, hop, hrefused⟩ := exists_ok (x := setTextTool glyphEnv clearedDoc "l0_t" "b")
      (fun op => (applyOne clearedDoc (.setText op)).toOption.isSome) (b := false) (by with_unfolding_all decide)
    refine ⟨op, hop, ?_⟩
    rintro ⟨doc', _, _, happly, _, _⟩
    rw [happly] at hrefused
    cases hrefused

end UniDocs.Psd
