import Esq.Libs.FindLastSlash
import Esq.Sfs.Handler

/-!
# directory を見せる

`modules/simple-file-service/folder.c` の `sfs_read_local_folder_cb`。

`nghttp2` は、EOF の印が付くまで callback を呼び、返った長さの byte を送る。頭、上への link、folder の行、file の行、
終わりを一つずつ buffer に書き、行が入らなければ、次の buffer の初めに書き直す。
-/

namespace Esq

def sfsPreferecBufferSize : Nat := 8192

/-- `d_type`。`DT_DIR` と `DT_REG` のほかは区別しない。 -/
inductive SfsDType where
  | dir
  | reg
  | other
  deriving DecidableEq

structure SfsDirent where
  dName : CStr
  dType : SfsDType
  short : dName.bytes.length ≤ 255

/-- 見せる間は変わらないもの。`entries` は、`readdir` が初めから返す列である。 -/
structure SfsFolder where
  flags : UInt32
  pathHead : CStr
  entries : List SfsDirent

inductive SfsOutputStat where
  | head
  | goUpper
  | dir
  | dirCont
  | file
  | fileCont
  | tail
  | finished
  deriving DecidableEq

/-- `sfs_stream_ctx_t` のうち、見せるのに使う欄。 -/
structure SfsFolderCtx where
  dirOutputStat : SfsOutputStat
  /-- `path` の、`local_path_head` より後ろ -/
  path : List UInt8
  /-- `dir` から、これから読む列 -/
  dir : List SfsDirent
  ent : Option SfsDirent
  itemIdx : Nat

def findLastSlash (b : List UInt8) : Int := findLastSlash2 (cstring b)

/-! ## 書くもの -/

/-- `SFS_FOLDER_PAGE_HEAD` と `SFS_FOLDER_PAGE_HEAD2` の、初めの部分。 -/
def sfsPageStyle (place : List UInt8) : List UInt8 :=
  ascii "<html><head><title>" ++ place ++ ascii "</title>" ++
    ascii "<meta http-equiv=\"Content-Type\" content=\"text/html; charset=utf-8\">" ++
    ascii "<style type=\"text/css\">" ++
    ascii "body\x7bfont-family:\"Courier New\", Courier, monospace;padding:2px;\x7d" ++
    ascii "td\x7bpadding-left:5px;padding-right:5px\x7d" ++
    ascii ".tdo\x7bbackground-color:#f0f0ff\x7d" ++
    ascii ".tde\x7bbackground-color:#f9f9ff\x7d" ++
    ascii "</style>"

def sfsFolderPageHead (place : List UInt8) : List UInt8 :=
  sfsPageStyle place ++ ascii "</head><body><table><tr><td>Index of: " ++ place ++
    ascii "</td></tr></table><hr><table>"

def sfsFolderPageHead2 (place : List UInt8) : List UInt8 :=
  sfsPageStyle place ++ ascii "</head><body>" ++
    ascii "<table width=100%><tr><td>Index of: " ++ place ++ ascii "</td>" ++
    ascii "<form method=\"post\" action=\"" ++ place ++ ascii "\" enctype=\"multipart/form-data\">"
      ++
    ascii "<td align=\"right\"><input type=\"file\" id=\"ufile\" name=\"ufile\" />" ++
    ascii "<input type=\"submit\" value=\"upload\" /></td></tr></table></form>" ++
    ascii "<hr><table>"

def sfsFolderPageTail : List UInt8 := ascii "</table><hr></body></html>"

def sfsClassStr (itemIdx : Nat) : List UInt8 :=
  if itemIdx % 2 = 1 then ascii "class=\"tde\"" else ascii "class=\"tdo\""

def sfsRow (class_str href name : List UInt8) : List UInt8 :=
  ascii "<tr><td " ++ class_str ++ ascii "><a href=\"" ++ href ++ ascii "\">" ++ name ++ ascii
    "</a></td></tr>\n"

section

variable (folder : SfsFolder)

def sfsHeadText (path : List UInt8) : List UInt8 :=
  if folder.flags &&& sfsFlagsAllowUpload ≠ 0 then sfsFolderPageHead2
    (folder.pathHead.bytes ++ path)
  else sfsFolderPageHead (folder.pathHead.bytes ++ path)

/-- `sfs_local_folder_output_go_upper`。書いた文字列も返す。 -/
def sfsLocalFolderOutputGoUpper (len : Nat)
    (ctx : SfsFolderCtx) : Int × List UInt8 × SfsFolderCtx :=
  if ctx.path.length = 0 then (0, [], ctx)
  else
    let lastSlash := findLastSlash ctx.path
    let (href, path) :=
      if lastSlash ≤ 0 then (folder.pathHead.bytes, ctx.path)
      else
        -- 一度 NUL で切り、`/` に戻す
        let cut := ctx.path.set lastSlash.toNat 0
        (folder.pathHead.bytes ++ cstring cut ++ [47], cut.set lastSlash.toNat 47)
    let ctx := { ctx with path := path }
    let text := sfsRow (ascii "class=\"tdo\"") href (ascii "../")
    if truncated text.length len then (-3, [], ctx)
    else (text.length, text, { ctx with itemIdx := ctx.itemIdx + 1 })

/-- entry の行。`suffix` は名前に続く文字である。 -/
def sfsEntryRow (path suffix : List UInt8) (itemIdx : Nat) (ent : SfsDirent) : List UInt8 :=
  let href :=
    if path.length ≠ 0 then folder.pathHead.bytes ++ path ++ [47] ++ ent.dName.bytes
    else folder.pathHead.bytes ++ ent.dName.bytes
  sfsRow (sfsClassStr itemIdx) href (ent.dName.bytes ++ suffix)

/-- `sfs_local_folder_output_dir` と `sfs_local_folder_output_file`。 -/
def sfsLocalFolderOutput (suffix : List UInt8) (len : Nat) (ent : SfsDirent) (ctx : SfsFolderCtx) :
    Int × List UInt8 × SfsFolderCtx :=
  if ent.dName.bytes.head? = some 46 then (-1, [], ctx)
  else
    let text := sfsEntryRow folder ctx.path suffix ctx.itemIdx ent
    if truncated text.length len then (-2, [], ctx)
    else (text.length, text, { ctx with itemIdx := ctx.itemIdx + 1 })

def sfsLocalFolderOutputDir := sfsLocalFolderOutput folder [47]

def sfsLocalFolderOutputFile := sfsLocalFolderOutput folder []

/-- `sfs_read_local_folder_output_one_item`。書いた文字列も返す。 -/
def sfsReadLocalFolderOutputOneItem (length : Nat)
    (ctx : SfsFolderCtx) : Int × List UInt8 × SfsFolderCtx :=
  match ctx.dirOutputStat with
  | .head =>
    let text := sfsHeadText folder ctx.path
    if truncated text.length length then (-3, [], ctx)
    else (text.length, text, { ctx with dirOutputStat := .goUpper })
  | .goUpper =>
    let (r, text, ctx) := sfsLocalFolderOutputGoUpper folder length ctx
    if r = 0 then (-1, [], { ctx with dirOutputStat := .dir })
    else if r < 0 ∨ (length : Int) ≤ r then (-3, [], ctx)
    else (r, text, { ctx with dirOutputStat := .dir })
  | .dir =>
    match ctx.dir with
    | ent :: dir =>
      let ctx := { ctx with
        ent := some ent
        dir := dir }
      if ent.dType = .dir then
        let (r, text, ctx) := sfsLocalFolderOutputDir folder length ent ctx
        (r, text, if r = -2 then { ctx with dirOutputStat := .dirCont } else ctx)
      else (-1, [], ctx)
    | [] =>
      (-1, [], { ctx with
        ent := none
        dir := folder.entries
        dirOutputStat := .file })
  | .dirCont =>
    -- `ent` は、前の buffer に入らなかった entry で、NULL でない
    let ctx := { ctx with dirOutputStat := .dir }
    match ctx.ent with
    | some ent =>
      if ent.dType = .dir then
        let (r, text, ctx) := sfsLocalFolderOutputDir folder length ent ctx
        if r ≤ 0 then (-3, [], ctx) else (r, text, ctx)
      else (-1, [], ctx)
    | none => (-3, [], ctx)
  | .file =>
    match ctx.dir with
    | ent :: dir =>
      let ctx := { ctx with
        ent := some ent
        dir := dir }
      if ent.dType = .reg then
        let (r, text, ctx) := sfsLocalFolderOutputFile folder length ent ctx
        (r, text, if r = -2 then { ctx with dirOutputStat := .fileCont } else ctx)
      else (-1, [], ctx)
    | [] =>
      (-1, [], { ctx with
        ent := none
        dirOutputStat := .tail })
  | .fileCont =>
    let ctx := { ctx with dirOutputStat := .file }
    match ctx.ent with
    | some ent =>
      if ent.dType = .reg then
        let (r, text, ctx) := sfsLocalFolderOutputFile folder length ent ctx
        if r ≤ 0 then (-3, [], ctx) else (r, text, ctx)
      else (-1, [], ctx)
    | none => (-3, [], ctx)
  | .tail =>
    if truncated sfsFolderPageTail.length length then (-3, [], ctx)
    else (sfsFolderPageTail.length, sfsFolderPageTail, { ctx with dirOutputStat := .finished })
  | .finished => (0, [], ctx)

/-- `sfs_read_local_folder_cb` の loop。`out` は `buf` の初めの `offset` byte である。返すのは、送る byte と EOF の印。 -/
def sfsReadLocalFolderLoop (length : Nat) : Nat → List UInt8 → SfsFolderCtx →
    Option (List UInt8 × Bool × SfsFolderCtx)
  | 0, _, _ => none
  | n + 1, out, ctx =>
    let (r, text, ctx) := sfsReadLocalFolderOutputOneItem folder (length - out.length) ctx
    if 0 < r then sfsReadLocalFolderLoop length n (out ++ text) ctx
    else if r = 0 then some (out, true, ctx)
    else if r = -1 then sfsReadLocalFolderLoop length n out ctx
    else if r = -2 then some (out, false, ctx)
    else some ([], true, ctx)

/-- `sfs_read_local_folder_cb`。entry を二度ずつ読むので、回る回数は決まっている。 -/
def sfsReadLocalFolderCb (length : Nat) (ctx : SfsFolderCtx) : Option
    (List UInt8 × Bool × SfsFolderCtx) :=
  if length < sfsPreferecBufferSize then some ([], true, ctx)
  else
    let length := if sfsPreferecBufferSize < length then sfsPreferecBufferSize else length
    sfsReadLocalFolderLoop folder length (2 * folder.entries.length + 8) [] ctx

/-- EOF まで呼んで、送った byte を続ける。`i` 回めは `lengths i` byte を渡す。 -/
def sfsReadLocalFolder (lengths : Nat → Nat) : Nat → Nat → SfsFolderCtx → Option (List UInt8)
  | 0, _, _ => none
  | n + 1, i, ctx =>
    match sfsReadLocalFolderCb folder (lengths i) ctx with
    | none => none
    | some (out, eof, ctx) =>
      if eof then some out else (sfsReadLocalFolder lengths n (i + 1) ctx).map (out ++ ·)

def sfsFolderStart (path : List UInt8) : SfsFolderCtx where
  dirOutputStat := .head
  path := path
  dir := folder.entries
  ent := none
  itemIdx := 0

end

end Esq
