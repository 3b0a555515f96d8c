import ArmStudio.Screen.Desk

/-!
# Layout

Which widgets the window and its panels are made of, and where they stand. Widgets are made one
after the other and then placed in the cells of a grid.

* `makeWindow`: the window with the blank panel;
* `makeConsole`, `setConsole`: a panel, and a panel in place of another.
-/

namespace ArmStudio.Screen

open Panel Act

structure Place where
  app : Nat
  parent : Nat

def slotName (slot : Nat) : Document := .text s!"var:{slot}"

def plain (kind : Kind) (p : Place) : Widget :=
  ⟨kind, p.app, some p.parent, true, "", none, none, none, [], false, []⟩

def makeFrame (kind : Kind) (p : Place) : Act Nat := newWidget (plain kind p) []

variable (p : Place)

def makeLabel (text : String) : Act Nat :=
  newWidget { plain .label p with label := text } [("text", .text text)]

def makeDisplay (slot : Nat) : Act Nat :=
  newWidget (plain .label p) [("textvariable", slotName slot)]

def makeButton (text : String) (action : Action) : Act Nat :=
  newWidget { plain .button p with label := text, action := some action }
    [("text", .text text), ("command", .text "fn")]

def makeEntry (slot : Nat) (field : FieldKind) : Act Nat :=
  newWidget { plain .entry p with slot := some slot, field := some field }
    [("textvariable", slotName slot)]

def makeText (width height : Nat) : Act Nat :=
  newWidget (plain .text p) [("width", .nat width), ("height", .nat height)]

def makeMenu (slot : Nat) (items : List String) (listsPorts : Bool) : Act Nat :=
  newWidget { plain .menu p with slot := some slot, items := items, listsPorts := listsPorts }
    [("variable", slotName slot), ("values", .texts items)]

def place (id : Nat) (options : Options) : Act Unit := recordLayout (.placed id options)

def cell (row column : Nat) : Options := [("row", .nat row), ("column", .nat column)]

def across (columns : Nat) : Options := [("columnspan", .nat columns)]

def down (rows : Nat) : Options := [("rowspan", .nat rows)]

def sticky (sides : String) : Options := [("sticky", .text sides)]

def padX (n : Nat) : Options := [("padx", .nat n)]

def padY (n : Nat) : Options := [("pady", .nat n)]

/-! ## Fields in sixes -/

def makeSix (names : List String) (initial : String) (field : FieldKind) :
    Act (List Nat × List Nat × List Nat) := do
  let labels ← names.mapM (makeLabel p)
  let slots ← names.mapM fun _ => textVariable initial
  let entries ← slots.mapM fun slot => makeEntry p slot field
  return (labels, slots, entries)

def placeSix (row : Nat) (labels entries : List Nat) (options : Options) : Act Unit := do
  for ((label, entry), i) in (labels.zip entries).zipIdx do
    place label (cell (row + i / 3) (2 * (i % 3)) ++ padY 2 ++ options)
    place entry (cell (row + i / 3) (2 * (i % 3) + 1) ++ padY 2 ++ options)

/-! ## Panels -/

def makeImmediate : Act Parts := do
  let base ← makeLabel p "基础指令"
  let reset ← makeButton p "复位" (.task .reset)
  let stop ← makeButton p "停止" (.task .stop)
  let openGripper ← makeButton p "打开手爪" (.task .openGripper)
  let closeGripper ← makeButton p "关闭手爪" (.task .closeGripper)
  let speed ← makeLabel p "设置最大速度"
  let (speedLabels, speeds, speedEntries) ← makeSix p
    ["M1(%):", "M2(%):", "M3(%):", "M4(%):", "S1(%):", "S2(%):"] "50.0" .speed
  let setSpeed ← makeButton p "设置" (.setSpeed speeds)
  let pose ← makeLabel p "正交坐标控制模式"
  let (poseLabels, poses, poseEntries) ← makeSix p ["X:", "Y:", "Z:", "ALPHA:", "S1:", "S2:"] "0"
    .number
  let sendPose ← makeButton p "发送" (.movePose poses)
  let joint ← makeLabel p "关节坐标控制模式"
  let (jointLabels, joints, jointEntries) ← makeSix p ["M1:", "M2:", "M3:", "M4:", "S1:", "S2:"]
    "0" .number
  let sendJoints ← makeButton p "发送" (.moveJoints joints)
  let state ← makeLabel p "读取当前状态"
  let read ← makeButton p "读取" (.task .readState)
  let text ← makeText p 80 6
  let wide := padY 2 ++ sticky "nsew"
  place base (cell 0 0 ++ across 4 ++ sticky "nsew")
  for (button, i) in [reset, stop, openGripper, closeGripper].zipIdx do
    place button (cell 1 i ++ wide)
  place speed (cell 2 0 ++ across 4 ++ padY 7)
  placeSix 3 speedLabels speedEntries (sticky "nsew")
  place setSpeed (cell 5 0 ++ across 2 ++ wide)
  place pose (cell 6 0 ++ across 4 ++ padY 7)
  placeSix 7 poseLabels poseEntries []
  place sendPose (cell 10 0 ++ across 2 ++ wide)
  place joint (cell 11 0 ++ across 4 ++ padY 7)
  placeSix 12 jointLabels jointEntries []
  place sendJoints (cell 14 0 ++ across 2 ++ wide)
  place state (cell 15 0 ++ across 4 ++ padY 7)
  place text (cell 16 0 ++ across 6 ++ padY 2 ++ sticky "ew")
  place read (cell 17 0 ++ across 2 ++ wide)
  return ⟨text, 0, 0, 0⟩

def makeFlash : Act Parts := do
  let erase ← makeButton p "全片擦除" .eraseFlash
  let writing ← makeLabel p "写入Flash"
  let file ← newVariable (.text "") false
  let chooseFile ← makeButton p "打开写入文件"
    (.chooseFile file "请选择需要写入的文件" "Binary Files" "*.bin")
  let fileLabel ← makeLabel p "文件路径: "
  assign file (.text "请选择写入文件")
  let fileDisplay ← makeDisplay p file
  let writeLabel ← makeLabel p "写入地址(bytes): 0x"
  let address ← textVariable "00000000"
  let writeEntry ← makeEntry p address .writeAddress
  let caution ← makeLabel p "写入地址需要与4096bytes对齐"
  let limit ← makeLabel p "写入地址最大为0x0200 0000(32MB)"
  let write ← makeButton p "写入Flash" (.writeFlash address file)
  let reading ← makeLabel p "读取Flash"
  let target ← newVariable (.text "") false
  let chooseTarget ← makeButton p "选择保存路径" (.chooseTarget target)
  assign target (.text "请选择保存路径")
  let targetLabel ← makeLabel p "保存路径:"
  let targetDisplay ← makeDisplay p target
  let startLabel ← makeLabel p "读Flash起始地址(bytes): 0x"
  let start ← textVariable "00000000"
  let startEntry ← makeEntry p start .readAddress
  let lengthLabel ← makeLabel p "读Flash长度(bytes): 0x"
  let length ← textVariable "00000000"
  let lengthEntry ← makeEntry p length .readLength
  let multiple ← makeLabel p "读取Flash的长度需要是1024bytes的倍数"
  let read ← makeButton p "读取Flash" (.readFlash start length target)
  let wide (row pad : Nat) : Options := cell row 0 ++ across 2 ++ padY pad ++ sticky "nsew"
  let small (row column : Nat) : Options := cell row column ++ padY 2
  for (id, options) in [(erase, wide 0 7), (writing, wide 1 7), (chooseFile, wide 2 2),
      (fileLabel, small 3 0), (fileDisplay, small 3 1), (writeLabel, small 4 0),
      (writeEntry, small 4 1), (caution, wide 5 2), (limit, wide 6 2), (write, wide 7 2),
      (reading, wide 8 7), (chooseTarget, wide 9 2), (targetLabel, small 10 0),
      (targetDisplay, small 10 1), (startLabel, small 11 0), (startEntry, small 11 1),
      (lengthLabel, small 12 0), (lengthEntry, small 12 1), (multiple, wide 13 2),
      (read, wide 14 2)] do
    place id options
  return ⟨0, 0, 0, 0⟩

def makeProgram : Act Parts := do
  let compiling ← makeLabel p "编译 ArmScript 源文件"
  let source ← textVariable "未选择文件"
  let chooseSource ← makeButton p "打开 ArmScript 源文件"
    (.chooseFile source "选择 ArmScript 源文件" "ArmScript" "*.as")
  let sourceDisplay ← makeDisplay p source
  let bytes := source + 1
  let compile ← makeButton p "编译" (.compile source none)
  let compileAndLoad ← makeButton p "编译并烧录" (.compile source (some bytes))
  let loading ← makeLabel p "烧录字节码"
  let bytes ← textVariable "未选择文件"
  let chooseBytes ← makeButton p "打开字节码文件"
    (.chooseFile bytes "选择字节码文件" "字节码" "*.byte")
  let bytesDisplay ← makeDisplay p bytes
  let download ← makeButton p "烧录" (.download bytes)
  let text ← makeText p 50 20
  let pads (x y : Nat) : Options := padX x ++ padY y
  place compiling ([("row", .nat 0)] ++ across 2 ++ pads 5 5 ++ sticky "ew")
  place chooseSource (cell 1 0 ++ across 2 ++ pads 5 5 ++ sticky "ew")
  place sourceDisplay (cell 2 0 ++ across 2 ++ pads 5 5 ++ sticky "ew")
  place compile (cell 3 0 ++ pads 5 2 ++ sticky "ew")
  place compileAndLoad (cell 3 1 ++ pads 2 5 ++ sticky "ew")
  place loading ([("row", .nat 4)] ++ across 2 ++ pads 5 5 ++ sticky "ew")
  place chooseBytes (cell 5 0 ++ across 2 ++ pads 5 2 ++ sticky "ew")
  place bytesDisplay (cell 6 0 ++ across 2 ++ pads 5 2 ++ sticky "ew")
  place download (cell 7 0 ++ across 2 ++ pads 5 2 ++ sticky "ew")
  place text (cell 8 0 ++ across 2 ++ pads 5 5 ++ sticky "nsew")
  return ⟨text, 0, 0, 0⟩

def makeVisual : Act Parts := do
  let caption ← makeLabel p "请选择摄像头:"
  let camera ← textVariable " "
  let menu ← makeMenu p camera ["0", "1", "2", "3", "4"] false
  let start ← makeButton p "开始" (.startVision camera)
  let stop ← makeButton p "停止" .stopVision
  let picture ← newWidget (plain .label p) [("image", .text "PhotoImage")]
  let messages ← makeFrame .messages p
  let text ← makeText p 60 7
  place text (cell 3 0 ++ padX 10 ++ padY 10 ++ sticky "nsew")
  place caption (cell 0 0 ++ padY 2 ++ sticky "nw")
  place menu (cell 0 1 ++ across 3 ++ padY 2 ++ sticky "e")
  place picture (cell 1 0 ++ across 2 ++ padY 10 ++ sticky "nsew")
  place start (cell 2 0 ++ padY 5 ++ sticky "ew")
  place stop (cell 2 1 ++ padY 5 ++ sticky "ew")
  place messages (cell 3 0 ++ across 2 ++ padY 2 ++ sticky "s")
  return ⟨text, menu, caption, picture⟩

def makeBlank : Act Parts := do
  let text := "请在左侧选择功能"
  let label ← newWidget { plain .label p with label := text }
    [("text", .text text), ("font", .list [.text "Arial", .int 16])]
  place label (cell 0 0 ++ down 10 ++ across 10)
  return ⟨0, 0, 0, 0⟩

def makeConsole (app window : Nat) (c : Console) : Act (Nat × Parts) := do
  let frame ← makeFrame (.console c) ⟨app, window⟩
  let p : Place := ⟨app, frame⟩
  let parts ← match c with
    | .blank => makeBlank p
    | .immediate => makeImmediate p
    | .flash => makeFlash p
    | .program => makeProgram p
    | .visual => makeVisual p
  return (frame, parts)

/-- Destroys a widget after those under it, down to a depth; the end of frames is seen. -/
def destroy : Nat → Nat → Act Unit
  | 0, _ => return
  | depth + 1, id => do
    let widgets := (← get).widgets
    for i in List.range widgets.size do
      match widgets[i]? with
      | some w => if w.parent == some id && w.alive then destroy depth i
      | none => pure ()
    updateWidget id fun w => { w with alive := false }
    match widgets[id]? with
    | some w => if w.kind.isFrame then record (.destroyed id)
    | none => return

/-- Puts a panel in the place of the one that stands in a window. -/
def setConsole (app : Nat) (c : Console) : Act Unit := do
  let (a, _) ← Act.app app
  destroy 3 a.frame
  let (frame, parts) ← makeConsole app a.window c
  place frame (cell 3 1 ++ down 10 ++ across 10 ++ sticky "n" ++ padX 10 ++ padY 10)
  modify fun d => { d with apps := d.apps.modify app fun (a, _) =>
    ({ a with console := c, frame := frame, compiling := none, watching := none }, parts) }

/-! ## The window -/

variable (p : Place)

/-- The buttons that choose a panel. Gives the frame and the label of the mode. -/
def makeCommands : Act (Nat × Nat) := do
  let frame ← makeFrame .commands p
  let q : Place := ⟨p.app, frame⟩
  place (← makeLabel q "选择功能模式") (cell 0 0 ++ sticky "nsew")
  place (← makeLabel q "当前模式：") (cell 1 0 ++ sticky "nsew")
  discard (newVariable (.text "请选择功能") false)
  let mode ← makeLabel q "请选择功能"
  place mode (cell 2 0 ++ sticky "nsew")
  for ((text, c), i) in [("实时控制模式", Console.immediate), ("视觉识别模式", .visual),
      ("编程模式", .program), ("读写Flash", .flash)].zipIdx do
    place (← makeButton q text (.openConsole text c)) (cell (i + 3) 0 ++ across 2 ++ sticky "ew")
  return (frame, mode)

/-- The monitor of the port. Gives the frame and the text. -/
def makeMonitor : Act (Nat × Nat) := do
  let frame ← makeFrame .monitor p
  let q : Place := ⟨p.app, frame⟩
  let caption ← makeLabel q "串口监控器"
  let toggle ← makeButton q "禁用串口监视器" (.toggleMonitor (caption + 1))
  let clear ← makeButton q "清屏" .clearMonitor
  let stamp ← makeButton q "显示时间戳" .toggleStamp
  let text ← makeText q 40 40
  place caption (cell 0 0 ++ down 2 ++ across 2 ++ sticky "nsew")
  place toggle (cell 2 0 ++ across 2 ++ sticky "nsew")
  place clear (cell 3 0 ++ sticky "ew")
  place stamp (cell 3 1 ++ sticky "ew")
  place text (cell 4 0 ++ down 16 ++ across 2 ++ sticky "nsew")
  return (frame, text)

def noPort : String := "     "

/-- The choice of a port. Gives the frame, the variable and the label of the state. -/
def makePorts : Act (Nat × Nat × Nat) := do
  let frame ← makeFrame .ports p
  let q : Place := ⟨p.app, frame⟩
  let caption ← makeLabel q "打开串口"
  let slot ← textVariable noPort
  let menu ← makeMenu q slot ((← get).ports ++ [noPort]) true
  let button ← makeButton q "打开串口" .openPort
  let state ← makeLabel q "尚未打开串口"
  place caption (cell 0 0 ++ across 4)
  place menu (cell 1 0 ++ across 3)
  place button (cell 1 3)
  place state (cell 2 0 ++ across 4)
  return (frame, slot, state)

def makeWindow : Act Nat := do
  let app := (← get).apps.size
  let window ← newWidget { plain .window ⟨app, 0⟩ with parent := none } []
  record (.titled "上位机")
  record (.sized "1080x720")
  let p : Place := ⟨app, window⟩
  let main ← makeFrame .frame p
  place main (cell 0 0 ++ sticky "nsew")
  let (commands, mode) ← makeCommands p
  let (monitor, text) ← makeMonitor p
  let (ports, portSlot, portLabel) ← makePorts p
  let (console, parts) ← makeConsole app window .blank
  let progress ← newVariable (.int 0) true
  let bar ← newWidget { plain .progress p with slot := some progress }
    [("orient", .text "horizontal"), ("length", .int 100), ("mode", .text "determinate"),
      ("variable", slotName progress)]
  place commands (cell 0 0 ++ down 7 ++ sticky "n" ++ padX 10 ++ padY 10)
  place ports (cell 0 1 ++ down 3 ++ across 4 ++ sticky "n" ++ padX 10 ++ padY 5)
  place console (cell 3 1 ++ down 15 ++ across 10 ++ sticky "nsew" ++ padX 10 ++ padY 10)
  place monitor (cell 0 11 ++ down 11 ++ sticky "w" ++ padX 10 ++ padY 10)
  place bar (cell 11 11 ++ sticky "ew" ++ padX 10 ++ padY 3)
  modify fun d => { d with
    apps := d.apps.push (⟨window, mode, text, portSlot, portLabel, progress, .blank, console, false,
      true, true, true, [], [], none, none⟩, parts)
    polled := some app }
  return app

end ArmStudio.Screen
