import SqlTree.Proofs.Likeness.Unit

/-!
# Like sources and row limits

The sources of rows, their joins and pivots, and the four ways to limit rows are read alike.
-/

namespace SqlTree

open SqlTree.Parser

/-! ## Where the tag does not matter -/

namespace Level

variable {g : Level} {c : Cursor}

theorem link_of_not_next (hnext : c.nextType ≠ some .atSign) : g.link c = .ok none c := by
  unfold Level.link
  cases g.readsDialect .oracle with
  | false => rfl
  | true => exact bind_of_ok (accept_of_not_next hnext) _

theorem tableHints_of_apart
    (hsecond : c.nextType = some (.keyword .WITH) → c.secondType ≠ some .lparen) :
    g.tableHints c = .ok [] c := by
  have hstarts : g.startsHints c = false := by
    unfold Level.startsHints
    by_cases hnext : c.nextType = some (.keyword .WITH)
    · simp [hsecond hnext]
    · simp [hnext]
  have htest : test g.startsHints c = .ok false c := congrArg (EStateM.Result.ok · c) hstarts
  exact bind_of_ok htest _

end Level

namespace Likeness

variable {L : Likeness}

namespace Levels

variable {g g' : Level}

/-! ## Row limits -/

theorem rowsWord (h : L.Levels g g') : L.Kept Eq Level.rowsWord Level.rowsWord := by
  intro s
  refine .accept h.lawful rfl (.pure rfl) ?_
  exact .branch (kept_acceptWord h.lawful s) (.pure rfl) (.refuseFor h.lawful)

theorem limitOffset (h : L.Levels g g') : L.Kept L.Like g.limitOffset g'.limitOffset := by
  intro s
  refine .accept h.lawful rfl ?_ (.pure (like_rowRange.2 ⟨.none, .none⟩))
  refine (h.additive s).bind fun _ _ hfirst => ?_
  refine .accept h.lawful rfl ?_ ?_
  · refine (h.additive s).bind fun _ _ hcount => ?_
    exact .pure (like_rowRange.2 ⟨.some hfirst, .some hcount⟩)
  refine .branch (kept_acceptWord h.lawful s) ?_ ?_
  · refine (h.additive s).bind fun _ _ hoffset => ?_
    exact .pure (like_rowRange.2 ⟨.some hoffset, .some hfirst⟩)
  · exact .pure (like_rowRange.2 ⟨.none, .some hfirst⟩)

theorem acceptEither (h : L.Levels g g') {word : Keyword} {other : String} :
    L.Kept Eq (Level.acceptEither word other) (Level.acceptEither word other) :=
  fun s => .accept h.lawful rfl (.pure rfl) (kept_acceptWord h.lawful s)

theorem fetch (h : L.Levels g g') {ordinal : Keyword} {other : String} {wanted : Wanted} :
    L.Kept L.Like (g.fetch ordinal other wanted) (g'.fetch ordinal other wanted) := by
  intro s
  refine .accept h.lawful rfl ?_ (.pure .none)
  refine .branch (h.acceptEither s) ?_ (.refuseFor h.lawful)
  refine (h.additive s).bind fun _ _ hcount => ?_
  refine (h.rowsWord s).bind_eq fun _ => ?_
  refine (kept_expectKeyword h.lawful s).bind fun _ _ _ => ?_
  exact .pure (.some hcount)

theorem offsetFetch (h : L.Levels g g') : L.Kept L.Like g.offsetFetch g'.offsetFetch := by
  intro s
  refine .accept h.lawful rfl ?_ (.pure (like_rowRange.2 ⟨.none, .none⟩))
  refine (h.additive s).bind fun _ _ hoffset => ?_
  refine (h.rowsWord s).bind_eq fun _ => ?_
  refine (h.fetch s).bind fun _ _ hcount => ?_
  exact .pure (like_rowRange.2 ⟨.some hoffset, hcount⟩)

theorem offsetRows (h : L.Levels g g') : L.Kept L.Like g.offsetRows g'.offsetRows := by
  intro s
  refine .branch (kept_acceptWord h.lawful s) ?_ (.pure .none)
  refine (h.additive s).bind fun _ _ hoffset => ?_
  refine (h.rowsWord s).bind_eq fun _ => ?_
  exact .pure (.some hoffset)

theorem fetchFirst (h : L.Levels g g') : L.Kept L.Like g.fetchFirst g'.fetchFirst := by
  intro s
  refine (h.offsetRows s).bind fun _ _ hoffset => ?_
  refine (h.fetch s).bind fun _ _ hcount => ?_
  exact .pure (like_rowRange.2 ⟨hoffset, hcount⟩)

theorem rowsWordIfAny (h : L.Levels g g') :
    L.Kept Eq Level.rowsWordIfAny Level.rowsWordIfAny :=
  fun s => .branch (kept_acceptWord h.lawful s) (.pure rfl)
    ((kept_acceptWord h.lawful s).bind_eq fun _ => .pure rfl)

theorem acceptUnlessRead (h : L.Levels g g') {read read' : Option Expr} (hread : L.Like read read')
    {word : Keyword} :
    L.Kept Eq (Level.acceptUnlessRead read word) (Level.acceptUnlessRead read' word) := by
  intro s
  cases read with
  | none =>
      obtain rfl := Like.eq_none hread
      exact kept_acceptKeyword h.lawful s
  | some e =>
      obtain ⟨e', rfl, _⟩ := Like.exists_some hread
      exact .pure rfl

theorem limitOrOffset (h : L.Levels g g') {range range' : RowRange} (hrange : L.Like range range') :
    L.Kept (Turns L.Like) (g.limitOrOffset range) (g'.limitOrOffset range') := by
  intro s
  obtain ⟨hoffset, hcount⟩ := like_rowRange.1 hrange
  refine .branch (h.acceptUnlessRead hcount s) ?_ ?_
  · refine .accept h.lawful rfl (.pure (.again hrange)) ?_
    refine (h.additive s).bind fun _ _ he => ?_
    exact .pure (.again (like_rowRange.2 ⟨hoffset, .some he⟩))
  · refine .branch (h.acceptUnlessRead hoffset s) ?_ (.pure (.done hrange))
    refine (h.additive s).bind fun _ _ he => ?_
    refine (h.rowsWordIfAny s).bind_eq fun _ => ?_
    exact .pure (.again (like_rowRange.2 ⟨.some he, hcount⟩))

theorem rowRange (h : L.Levels g g') {style : Option LimitStyle} :
    L.Kept L.Like (g.rowRange style) (g'.rowRange style) := by
  have hempty : L.Like ({} : RowRange) {} := like_rowRange.2 ⟨.none, .none⟩
  cases style with
  | none => exact fun _ => .pure hempty
  | some style =>
      cases style with
      | limitOffset => exact h.limitOffset
      | offsetFetch => exact h.offsetFetch
      | fetchFirst => exact h.fetchFirst
      | limitAndOffset => exact Kept.loop (fun _ _ hrange => h.limitOrOffset hrange) hempty

theorem limit (h : L.Levels g g') : L.Kept L.Like g.limit g'.limit := by
  intro s
  unfold Level.limit
  rw [h.settings, h.settings', ← h.lawful.limitStyle]
  refine (h.rowRange s).bind fun ⟨offset, count⟩ ⟨offset', count'⟩ hrange => ?_
  obtain ⟨hoffset, hcount⟩ := like_rowRange.1 hrange
  cases offset with
  | none =>
      obtain rfl := Like.eq_none hoffset
      cases count with
      | none =>
          obtain rfl := Like.eq_none hcount
          exact .pure .none
      | some count =>
          obtain ⟨count', rfl, hcount'⟩ := Like.exists_some hcount
          exact .pure (.some (.limit .none hcount h.tag))
  | some offset =>
      obtain ⟨offset', rfl, hoffset'⟩ := Like.exists_some hoffset
      exact .pure (.some (.limit hoffset hcount h.tag))

/-! ## Tables -/

theorem selectItem (h : L.Levels g g') : L.Kept L.Like g.selectItem g'.selectItem := by
  intro s
  refine (h.expression s).bind fun _ _ hbody => ?_
  refine (h.aliasName s).bind fun _ _ halias => ?_
  exact .pure (.selectItem hbody halias h.tag)

theorem tableOf (h : L.Levels g g') {path path' : NamePath} (hpath : L.Like path path') :
    L.Kept L.Like (g.tableOf path) (g'.tableOf path') := by
  intro s
  cases hpath.paths with
  | alone hlast => exact .pure (.table .none .none hlast .none .none .nil h.tag)
  | owned hlast hschema => exact .pure (.table .none (.some hschema) hlast .none .none .nil h.tag)
  | ownedTwice hlast hschema hdatabase =>
      exact .pure (.table (.some hdatabase) (.some hschema) hlast .none .none .nil h.tag)
  | long htexts => exact .refuse h.lawful (.longTableName htexts)

theorem tablePath (h : L.Levels g g') : L.Kept L.Like g.tablePath g'.tablePath :=
  fun s => .testThen (shared_startsName h.lawful) (h.namePath s).reads (.refuseFor h.lawful)

theorem tableName (h : L.Levels g g') : L.Kept L.Like g.tableName g'.tableName := by
  intro s
  refine (h.tablePath s).bind fun _ _ hpath => ?_
  refine (h.tableOf hpath s).bind fun _ _ htable => ?_
  exact .pure (.tableNode htable)

theorem readsDialect (h : L.Levels g g') {d : Dialect} (hshares : L.SharesDialect d) :
    g.readsDialect d = g'.readsDialect d := by
  rw [Level.readsDialect, Level.readsDialect, Level.tag, Level.tag, h.settings, h.settings',
    hshares]

theorem link (h : L.Levels g g') : L.Kept L.Like g.link g'.link := by
  intro s
  rcases h.lawful.link with hshares | hnever
  case inr =>
      intro base c d habreast _
      have hnext := habreast.nextType_ne hnever
      rw [Level.link_of_not_next hnext, Level.link_of_not_next (habreast.nextType h.lawful ▸ hnext)]
      exact .ok ⟨.none, habreast⟩
  unfold Level.link
  rw [← h.readsDialect hshares]
  cases g.readsDialect .oracle with
  | false => exact .pure .none
  | true =>
      refine .accept h.lawful rfl ?_ (.pure .none)
      refine (h.namePart s).bind fun first first' hfirst => ?_
      refine Reads.map (V := L.Like) (Kept.loop (fun link link' hlink t => ?_) hfirst s)
        fun _ _ => .some
      refine .accept h.lawful rfl ?_ (.pure (.done hlink))
      refine (h.namePart t).bind fun next next' hnext => ?_
      refine .pure (.again (.withValue hlink ?_))
      exact h.lawful.append (h.lawful.append (Like.value hlink) (h.lawful.constant "."))
        (Like.value hnext)

theorem tableHints (h : L.Levels g g') : L.Kept L.Like g.tableHints g'.tableHints := by
  intro s
  rcases h.lawful.tableHints with hshares | hnever
  case inr =>
      intro base c d habreast _
      have hsecond := habreast.secondType_ne hnever
      have hsecond' := hsecond
      rw [habreast.nextType h.lawful, habreast.secondType h.lawful] at hsecond'
      rw [Level.tableHints_of_apart hsecond, Level.tableHints_of_apart hsecond']
      exact .ok ⟨.nil, habreast⟩
  have hstarts : g.startsHints = g'.startsHints := by
    funext c
    rw [Level.startsHints, Level.startsHints, h.readsDialect hshares]
  unfold Level.tableHints
  rw [← hstarts]
  refine .testThen (.ofTypes h.lawful fun next second =>
    g.readsDialect .sqlServer && next == some (.keyword .WITH) && second == some .lparen) ?_
    (.pure .nil)
  refine .takeTwo h.lawful (t := .round :: s) (fun c type hφ htype => ?_)
    (fun c type hφ htype => ?_) ?_
  · have hnext := (Bool.and_eq_true_iff.1 (Bool.and_eq_true_iff.1 hφ.2).1).2
    rw [htype] at hnext
    exact Option.some.inj (eq_of_beq hnext) ▸ rfl
  · have hsecond := (Bool.and_eq_true_iff.1 hφ.2).2
    rw [htype] at hsecond
    exact Option.some.inj (eq_of_beq hsecond) ▸ rfl
  refine (h.commaList h.unit _).bind fun bodies bodies' hbodies => ?_
  refine (moves_expect h.lawful rfl).bind fun _ _ _ => ?_
  exact .pure (hbodies.map fun _ _ hbody => .hint hbody h.tag)

theorem namedSource (h : L.Levels g g') : L.Kept L.Like g.namedSource g'.namedSource := by
  intro s
  refine (h.tablePath s).bind fun _ _ hpath => ?_
  refine .branch (kept_isNext h.lawful s) ?_ ?_
  · refine (h.call hpath s).bind fun _ _ hcall => ?_
    refine (h.aliasName s).bind fun _ _ halias => ?_
    exact .pure (.tableFunction hcall halias h.tag)
  · refine (h.tableOf hpath s).bind fun _ _ htable => ?_
    refine (h.link s).bind fun _ _ hlink => ?_
    refine (h.aliasName s).bind fun _ _ halias => ?_
    refine (h.tableHints s).bind fun _ _ hhints => ?_
    exact .pure (.tableNode (.complete htable hlink halias hhints))

theorem pivot (h : L.Levels g g') {source source' : Expr} (hsource : L.Like source source') :
    L.Kept L.Like (g.pivot source) (g'.pivot source') := by
  intro s
  refine (kept_expectKeyword h.lawful s).bind fun _ _ _ => ?_
  refine (moves_expect h.lawful rfl).bind fun _ _ _ => ?_
  refine (h.namePart _).bind fun _ _ hname => ?_
  refine (h.call (like_path.2 ⟨hname, .nil⟩) _).bind fun _ _ hcall => ?_
  refine .branch (kept_acceptWord h.lawful _) ?_ (.refuseFor h.lawful)
  refine (h.additive _).bind fun _ _ hcolumn => ?_
  refine (kept_expectKeyword h.lawful _).bind fun _ _ _ => ?_
  refine (moves_expect h.lawful rfl).bind fun _ _ _ => ?_
  refine (h.commaList h.selectItem _).bind fun _ _ hvalues => ?_
  refine (moves_expect h.lawful rfl).bind fun _ _ _ => ?_
  refine (moves_expect h.lawful rfl).bind fun _ _ _ => ?_
  refine (h.aliasName s).bind fun _ _ halias => ?_
  exact .pure (.pivotTable hsource hcall hcolumn hvalues halias h.tag)

/-! ## Joins -/

theorem joinKind (h : L.Levels g g') : L.Kept Eq Level.joinKind Level.joinKind := by
  intro s
  refine .peekType h.lawful fun next => ?_
  cases next with
  | none => exact .pure rfl
  | some type =>
      cases type with
      | keyword word =>
          cases word with
          | INNER => exact .takeOf h.lawful (fun _ => id) rfl fun _ _ _ => .pure rfl
          | LEFT | RIGHT | FULL =>
              refine .takeOf h.lawful (fun _ => id) rfl fun _ _ _ => ?_
              exact (kept_acceptKeyword h.lawful s).bind_eq fun _ => .pure rfl
          | _ => exact .pure rfl
      | _ => exact .pure rfl

theorem join (h : L.Levels g g') {left left' : Expr} (hleft : L.Like left left') :
    L.Kept L.Like (g.join left) (g'.join left') := by
  intro s
  refine .accept h.lawful rfl ?_ ?_
  · refine (h.below .source s).bind fun _ _ hright => ?_
    exact .pure (.some (.joinTable hleft hright .none h.tag))
  refine .accept h.lawful rfl ?_ ?_
  · refine (kept_expectKeyword h.lawful s).bind fun _ _ _ => ?_
    refine (h.below .source s).bind fun _ _ hright => ?_
    exact .pure (.some (.joinTable hleft hright .none h.tag))
  refine (h.joinKind s).bind_eq fun kind => ?_
  cases kind with
  | none => exact .pure .none
  | some kind =>
      refine (kept_expectKeyword h.lawful s).bind fun _ _ _ => ?_
      refine (h.below .source s).bind fun _ _ hright => ?_
      refine (kept_expectKeyword h.lawful s).bind fun _ _ _ => ?_
      refine (h.expression s).bind fun _ _ hcondition => ?_
      exact .pure (.some (.joinTable hleft hright (.some hcondition) h.tag))

theorem joinsFrom (h : L.Levels g g') {n n' : Nat}
    (hcounts : L.Counts .fromList g.settings.maxIterations g'.settings.maxIterations n n')
    {left left' : Expr} (hleft : L.Like left left') :
    L.Kept L.Like (g.joinsFrom n left) (g'.joinsFrom n' left') := by
  intro s
  match n, n' with
  | 0, 0 => exact hcounts.throwBoth h.lawful
  | 0, _ + 1 => exact hcounts.throwFirst
  | _ + 1, 0 => exact hcounts.throwSecond
  | n + 1, n' + 1 =>
      refine (h.join hleft s).bind fun joined joined' hjoined => ?_
      cases joined with
      | none =>
          obtain rfl := Like.eq_none hjoined
          exact .pure hleft
      | some joined =>
          obtain ⟨joined', rfl, hone⟩ := Like.exists_some hjoined
          exact joinsFrom h hcounts.pred hone s

theorem sources (h : L.Levels g g') : L.Kept L.Like g.sources g'.sources :=
  fun s => (h.below .source s).bind fun _ _ hfirst => h.joinsFrom h.counts hfirst s

theorem plainSource (h : L.Levels g g') : L.Kept L.Like g.plainSource g'.plainSource := by
  intro s
  refine .isNextThen h.lawful ?_ (h.namedSource s)
  refine .testThen (shared_startsQuery_tail h.lawful) ?_ ?_
  · refine .takeOf h.lawful (fun _ hφ => hφ.1) rfl fun _ _ _ => ?_
    refine (h.below .query _).bind fun _ _ hquery => ?_
    refine (moves_expect h.lawful rfl).bind fun _ _ _ => ?_
    refine (h.aliasName s).bind fun _ _ halias => ?_
    exact .pure (.select hquery halias h.tag)
  · refine .takeOf h.lawful (fun _ hφ => hφ.1) rfl fun _ _ _ => ?_
    refine (h.sources _).bind fun _ _ hinner => ?_
    exact (moves_expect h.lawful rfl).bind fun _ _ _ => .pure hinner

theorem source (h : L.Levels g g') : L.Kept L.Like g.source g'.source := by
  intro s
  refine (h.plainSource s).bind fun _ _ hsource => ?_
  refine Kept.loop (fun _ _ hsource t => ?_) hsource s
  refine .branch (kept_isNextKeyword h.lawful t) ?_ (.pure (.done hsource))
  refine (h.pivot hsource t).bind fun _ _ hpivot => ?_
  exact .pure (.again hpivot)

end Levels

end Likeness

end SqlTree
