import Harjus.Configuration
import Mathlib.Data.List.Basic

/-!
# `Harjus.Proofs.Configuration`: the text of the static trading paths

`split` takes its tokens from `std::getline`, so it drops an empty token after the last
delimiter and no other one. `splitOn_eq_getlines` states this against `List.splitOn`, which
drops nothing, and the three uses of `split` follow from it.

* `staticTrade_renderItem` and `wellFormedItem_of_staticTrade`: an item is read as a trade
  exactly when it is a symbol, `:` and a position, up to one more `:`.
* `staticPaths_roundtrip`: rendered paths are read back, and a text with another item throws.
-/

set_option autoImplicit false

namespace Harjus

/-! ### Tokens -/

/-- The tokens of `std::getline` are the parts between the delimiters without an empty last
one. -/
theorem splitOn_eq_getlines (delimiter : Char) (cs : List Char) :
    cs.splitOn delimiter = getlines delimiter cs ∨
      cs.splitOn delimiter = getlines delimiter cs ++ [[]] := by
  induction cs with
  | nil =>
    right
    rw [List.splitOn_nil]
    rfl
  | cons c cs ih =>
    rw [List.splitOn_cons_eq_if_modifyHead, getlines]
    by_cases hc : c = delimiter
    · rw [if_pos hc, if_pos (beq_iff_eq.mpr hc)]
      rcases ih with ih | ih
      · left
        rw [ih]
      · right
        rw [ih, List.cons_append]
    · rw [if_neg hc, if_neg (by simpa using hc)]
      rcases ih with ih | ih
      · left
        rw [ih]
        cases hrest : getlines delimiter cs with
        | nil => exact absurd (ih.trans hrest) (List.splitOn_ne_nil _ _)
        | cons token tokens => rfl
      · rw [ih]
        cases hrest : getlines delimiter cs with
        | nil =>
          left
          rfl
        | cons token tokens =>
          right
          rfl

/-- A token does not contain the delimiter. -/
theorem notMem_of_mem_getlines {delimiter : Char} {cs token : List Char}
    (h : token ∈ getlines delimiter cs) : delimiter ∉ token := by
  induction cs generalizing token with
  | nil => cases h
  | cons c cs ih =>
    rw [getlines] at h
    split at h
    · rcases List.mem_cons.mp h with rfl | h
      · exact List.not_mem_nil
      · exact ih h
    · rename_i hc
      have hne : delimiter ≠ c := fun h => hc h.symm
      cases hrest : getlines delimiter cs with
      | nil =>
        rw [hrest] at h
        rw [List.mem_singleton.mp h]
        simpa using hne
      | cons token' tokens =>
        rw [hrest] at h ih
        rcases List.mem_cons.mp h with rfl | h
        · rw [List.mem_cons, not_or]
          exact ⟨hne, ih List.mem_cons_self⟩
        · exact ih (List.mem_cons_of_mem _ h)

/-- Tokens joined by the delimiter are read back if the last one is not empty. -/
theorem split_intercalate {delimiter : Char} {sep : String} (hsep : sep.toList = [delimiter])
    {tokens : List String} (hne : tokens ≠ []) (h : ∀ token ∈ tokens, delimiter ∉ token.toList)
    (hlast : tokens.getLast hne ≠ "") :
    split (sep.intercalate tokens) delimiter = tokens := by
  have hsplit : ([delimiter].intercalate (tokens.map String.toList)).splitOn delimiter
      = tokens.map String.toList := by
    refine List.splitOn_intercalate delimiter ?_ (by simpa using hne)
    simpa using h
  rw [split, String.toList_intercalate, hsep]
  rcases splitOn_eq_getlines delimiter ([delimiter].intercalate (tokens.map String.toList))
    with hgetlines | hgetlines
  · rw [← hgetlines, hsplit, List.map_map]
    exact (List.map_congr_left fun token _ => String.ofList_toList).trans (List.map_id _)
  · exfalso
    rw [hsplit] at hgetlines
    have hempty : (tokens.map String.toList).getLast? = some [] := by
      rw [hgetlines, List.getLast?_concat]
    rw [List.getLast?_map, List.getLast?_eq_some_getLast hne, Option.map_some,
      Option.some.injEq, String.toList_eq_nil_iff] at hempty
    exact hlast hempty

/-- A part between the delimiters is a token unless it is empty and the last one. -/
theorem mem_split {delimiter : Char} {s : String} {before after : List (List Char)}
    {token : List Char} (h : s.toList.splitOn delimiter = before ++ token :: after)
    (hfinal : token ≠ [] ∨ after ≠ []) : String.ofList token ∈ split s delimiter := by
  refine List.mem_map_of_mem ?_
  rcases splitOn_eq_getlines delimiter s.toList with hgetlines | hgetlines
  · rw [← hgetlines, h]
    exact List.mem_append_right _ List.mem_cons_self
  · rw [h] at hgetlines
    rcases List.eq_nil_or_concat after with rfl | ⟨after', last, rfl⟩
    · have hlast := (List.append_inj' hgetlines rfl).2
      exact absurd (List.cons.inj hlast).1 (hfinal.resolve_right fun h => h rfl)
    · rw [List.concat_eq_append, ← List.cons_append, ← List.append_assoc] at hgetlines
      rw [← (List.append_inj' hgetlines rfl).1]
      exact List.mem_append_right _ List.mem_cons_self

/-- What is neither in the separator nor in a part is not in the parts joined. -/
theorem notMem_intercalate {c : Char} {sep : String} {parts : List String}
    (hsep : c ∉ sep.toList) (h : ∀ part ∈ parts, c ∉ part.toList) :
    c ∉ (sep.intercalate parts).toList := by
  rw [String.toList_intercalate]
  induction parts with
  | nil => exact List.not_mem_nil
  | cons part parts ih =>
    obtain ⟨hpart, hparts⟩ := List.forall_mem_cons.mp h
    cases parts with
    | nil => simpa using hpart
    | cons part' parts =>
      rw [List.map_cons, List.map_cons, List.intercalate_cons_cons]
      have hrest := ih hparts
      rw [List.map_cons] at hrest
      simp only [List.mem_append, not_or]
      exact ⟨⟨hpart, hsep⟩, hrest⟩

/-- A loop that returns has made every step. -/
theorem exists_ok_of_mapM {α β ε : Type} {f : α → Except ε β} {l : List α} {r : List β}
    (h : l.mapM f = .ok r) {a : α} (ha : a ∈ l) : ∃ b, f a = .ok b := by
  have hsteps := mapM_eq_ok_iff.mp h
  clear h
  induction hsteps with
  | nil => cases ha
  | cons hstep _ ih =>
    rcases List.mem_cons.mp ha with rfl | ha
    · exact ⟨_, hstep⟩
    · exact ih ha

/-- A loop over the images of a list. -/
theorem mapM_map_eq_ok {α β ε : Type} {f : α → Except ε β} {g : β → α} {l : List β}
    (h : ∀ b ∈ l, f (g b) = .ok b) : (l.map g).mapM f = .ok l := by
  rw [mapM_eq_ok_iff, List.forall₂_map_left_iff, List.forall₂_same]
  exact h

namespace Configuration

/-! ### Items -/

/-- The position in an item. -/
def positionText : Position → String
  | .LONG => "LONG"
  | .SHORT => "SHORT"

/-- `SYMBOL:LONG` or `SYMBOL:SHORT`. -/
def renderItem (staticTrade : String × Position) : String :=
  ":".intercalate [staticTrade.1, positionText staticTrade.2]

/-- A symbol, `:` and a position, and perhaps one more `:`. -/
def WellFormedItem (item : List Char) : Prop :=
  ∃ (symbol : List Char) (position : Position), ':' ∉ symbol ∧
    (item = symbol ++ ':' :: (positionText position).toList ∨
      item = symbol ++ ':' :: (positionText position).toList ++ [':'])

/-- The delimiters do not occur in a position. -/
theorem notMem_positionText {c : Char} (hc : c ∈ [':', ',', ';']) (position : Position) :
    c ∉ (positionText position).toList := by
  simp only [List.mem_cons, List.not_mem_nil, or_false] at hc
  rcases hc with rfl | rfl | rfl <;> cases position <;> decide

/-- An item that is written is read again. -/
theorem staticTrade_renderItem {symbol : String} (position : Position)
    (h : ':' ∉ symbol.toList) :
    staticTrade (renderItem (symbol, position)) = .ok (symbol, position) := by
  have hsplit : split (renderItem (symbol, position)) ':' = [symbol, positionText position] := by
    refine split_intercalate rfl (List.cons_ne_nil _ _) ?_ ?_
    · simp [h, notMem_positionText]
    · show positionText position ≠ ""
      cases position <;> decide
  rw [staticTrade, hsplit]
  cases position <;> rfl

/-- An item that is read as a trade is a symbol, `:` and a position, up to one more `:`. -/
theorem wellFormedItem_of_staticTrade {item : String} {trade : String × Position}
    (h : staticTrade item = .ok trade) : WellFormedItem item.toList := by
  unfold staticTrade at h
  split at h
  · rename_i symbol positionStr hsplit
    obtain ⟨position, rfl⟩ : ∃ position, positionStr = positionText position := by
      split at h
      · rename_i hlong
        exact ⟨.LONG, hlong⟩
      · split at h
        · rename_i hshort
          exact ⟨.SHORT, hshort⟩
        · cases h
    have hgetlines : getlines ':' item.toList
        = [symbol.toList, (positionText position).toList] := by
      have hmap := congrArg (List.map String.toList) hsplit
      rw [split, List.map_map] at hmap
      rw [← List.map_id (getlines ':' item.toList)]
      exact (List.map_congr_left fun cs _ => String.toList_ofList.symm).trans hmap
    have hsymbol : ':' ∉ symbol.toList :=
      notMem_of_mem_getlines (hgetlines ▸ List.mem_cons_self)
    have hjoin : [':'].intercalate (item.toList.splitOn ':') = item.toList :=
      List.intercalate_splitOn ':'
    refine ⟨symbol.toList, position, hsymbol, ?_⟩
    rw [← hjoin]
    -- `getline` drops an empty last part, which is the one more separator.
    rcases splitOn_eq_getlines ':' item.toList with hsplitOn | hsplitOn
    · left
      rw [hsplitOn, hgetlines]
      simp [List.intercalate_cons_cons]
    · right
      rw [hsplitOn, hgetlines]
      simp [List.intercalate_cons_cons]
  · cases h

/-! ### The text -/

/-- The items of a path joined by `,`. -/
def renderPath (path : List (String × Position)) : String :=
  ",".intercalate (path.map renderItem)

/-- The paths joined by `;`. -/
def renderPaths (paths : List (List (String × Position))) : String :=
  ";".intercalate (paths.map renderPath)

/-- There is a path, every path has a trade, and no symbol contains a delimiter. -/
def Renderable (paths : List (List (String × Position))) : Prop :=
  paths ≠ [] ∧ ∀ path ∈ paths, path ≠ [] ∧ ∀ staticTrade ∈ path,
    ',' ∉ staticTrade.1.toList ∧ ';' ∉ staticTrade.1.toList ∧ ':' ∉ staticTrade.1.toList

/-- Some path of the text has an item, and not an empty one at its end, that is no symbol with a
position. -/
def Malformed (text : String) : Prop :=
  ∃ segment ∈ text.toList.splitOn ';', ∃ before item after,
    segment.splitOn ',' = before ++ item :: after ∧ (item ≠ [] ∨ after ≠ []) ∧
      ¬ WellFormedItem item

/-- A delimiter of paths or items that is not in the symbol is not in the item. -/
theorem notMem_renderItem {c : Char} (hc : c ∈ [',', ';']) {staticTrade : String × Position}
    (h : c ∉ staticTrade.1.toList) : c ∉ (renderItem staticTrade).toList := by
  have hposition := notMem_positionText (List.mem_cons_of_mem _ hc) staticTrade.2
  have hcolon : c ∉ ":".toList := by
    simp only [List.mem_cons, List.not_mem_nil, or_false] at hc
    rcases hc with rfl | rfl <;> decide
  refine notMem_intercalate hcolon ?_
  simp [h, hposition]

/-- No item is empty. -/
theorem renderItem_ne_empty (staticTrade : String × Position) : renderItem staticTrade ≠ "" := by
  rw [renderItem, Ne, ← String.toList_eq_nil_iff, String.toList_intercalate]
  simp [List.intercalate_cons_cons]

/-- Items joined by `,` are split again. -/
theorem split_renderPath {path : List (String × Position)} (hne : path ≠ [])
    (h : ∀ staticTrade ∈ path, ',' ∉ staticTrade.1.toList) :
    split (renderPath path) ',' = path.map renderItem := by
  have hne' : path.map renderItem ≠ [] := by simpa using hne
  refine split_intercalate rfl hne' ?_ ?_
  · intro item hitem
    obtain ⟨staticTrade, hmem, rfl⟩ := List.mem_map.mp hitem
    exact notMem_renderItem (by decide) (h staticTrade hmem)
  · rw [List.getLast_map]
    exact renderItem_ne_empty _

/-- Paths joined by `;` are split again. -/
theorem split_renderPaths {paths : List (List (String × Position))} (h : Renderable paths) :
    split (renderPaths paths) ';' = paths.map renderPath := by
  have hne' : paths.map renderPath ≠ [] := by simpa using h.1
  refine split_intercalate rfl hne' ?_ ?_
  · intro segment hsegment
    obtain ⟨path, hpath, rfl⟩ := List.mem_map.mp hsegment
    refine notMem_intercalate (by decide) fun item hitem => ?_
    obtain ⟨staticTrade, hmem, rfl⟩ := List.mem_map.mp hitem
    exact notMem_renderItem (by decide) ((h.2 path hpath).2 staticTrade hmem).2.1
  · obtain ⟨hpath, hitems⟩ := h.2 _ (List.getLast_mem h.1)
    rw [List.getLast_map, Ne, ← @split_eq_nil_iff _ ',',
      split_renderPath hpath fun staticTrade hmem => (hitems staticTrade hmem).1]
    simpa using hpath

/-- The malformed item of a text is one that the loops come to. -/
theorem mem_split_of_malformed {text : String} (h : Malformed text) :
    ∃ pathString ∈ split text ';', ∃ tradeString ∈ split pathString ',',
      ¬ WellFormedItem tradeString.toList := by
  obtain ⟨segment, hsegment, before, item, after, hitems, hfinal, hmalformed⟩ := h
  -- A path without items has no item but a final empty one.
  have hne : segment ≠ [] := by
    rintro rfl
    obtain ⟨rfl, hrest⟩ | ⟨before', rfl, hrest⟩ :=
      List.append_eq_cons_iff.mp (hitems.symm.trans (List.splitOn_nil ','))
    · obtain ⟨rfl, rfl⟩ := List.cons.inj hrest
      simp at hfinal
    · exact absurd hrest.symm (by simp)
  obtain ⟨first, last, hsegments⟩ := List.append_of_mem hsegment
  refine ⟨String.ofList segment, mem_split hsegments (Or.inl hne), String.ofList item,
    mem_split (by rwa [String.toList_ofList]) hfinal, ?_⟩
  rwa [String.toList_ofList]

/-- Rendered paths are read back, and a text with an item that is no symbol with a position
throws. -/
theorem staticPaths_roundtrip (config : Configuration) :
    (∀ paths, Renderable paths → config.staticPathsEnv = renderPaths paths →
      config.getStaticTradingPaths = .ok paths) ∧
    (Malformed config.staticPathsEnv → ∃ e, config.getStaticTradingPaths = .error e) := by
  constructor
  · intro paths h htext
    have hsplit := split_renderPaths h
    have hempty : renderPaths paths ≠ "" := by
      rw [Ne, ← @split_eq_nil_iff _ ';', hsplit]
      simpa using h.1
    rw [getStaticTradingPaths, htext, if_neg hempty, hsplit]
    refine mapM_map_eq_ok fun path hpath => ?_
    obtain ⟨hne, hitems⟩ := h.2 path hpath
    rw [split_renderPath hne fun staticTrade hmem => (hitems staticTrade hmem).1]
    exact mapM_map_eq_ok fun staticTrade hmem =>
      staticTrade_renderItem staticTrade.2 (hitems staticTrade hmem).2.2
  · intro h
    obtain ⟨pathString, hpathString, tradeString, htradeString, hmalformed⟩ :=
      mem_split_of_malformed h
    have htext : config.staticPathsEnv ≠ "" := by
      rw [Ne, ← @split_eq_nil_iff _ ';']
      exact List.ne_nil_of_mem hpathString
    cases hpaths : config.getStaticTradingPaths with
    | error e => exact ⟨e, rfl⟩
    | ok paths =>
      exfalso
      rw [getStaticTradingPaths, if_neg htext] at hpaths
      obtain ⟨path, hpath⟩ := exists_ok_of_mapM hpaths hpathString
      obtain ⟨trade, htrade⟩ := exists_ok_of_mapM hpath htradeString
      exact hmalformed (wellFormedItem_of_staticTrade htrade)

/-- `BTCUSDT:LONG,ETHBTC:LONG,ETHUSDT:SHORT`, and `BTCUSDT` without a position. -/
theorem staticPaths_roundtrip_sample :
    (Configuration.mk ⟨3, []⟩ "BTCUSDT:LONG,ETHBTC:LONG,ETHUSDT:SHORT").getStaticTradingPaths
      = .ok [[("BTCUSDT", .LONG), ("ETHBTC", .LONG), ("ETHUSDT", .SHORT)]] ∧
    ∃ e, (Configuration.mk ⟨3, []⟩ "BTCUSDT;").getStaticTradingPaths = .error e := by
  have hmalformed : ¬ WellFormedItem "BTCUSDT".toList := by
    rintro ⟨symbol, position, -, h⟩
    have hcolon : ':' ∈ "BTCUSDT".toList := by
      rcases h with h | h <;> simp [h]
    exact absurd hcolon (by decide)
  exact ⟨(staticPaths_roundtrip _).1 _ ⟨by decide, by decide⟩ (by decide),
    (staticPaths_roundtrip _).2 ⟨"BTCUSDT".toList, by decide, [], "BTCUSDT".toList, [], by decide,
      by decide, hmalformed⟩⟩

end Configuration

end Harjus
