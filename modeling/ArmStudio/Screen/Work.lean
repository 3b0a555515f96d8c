import ArmStudio.Link.Task
import ArmStudio.Panel.Request
import ArmStudio.Screen.Layout

/-!
# Work

What the buttons do, and what the window and its link do with what waits for them.

* `monitorLine`: a line on the monitor of the port;
* `runTasks`: the link does the tasks that wait;
* `takeMessages`: the window takes the messages that wait;
* `Action.run`: what a button does.
-/

namespace ArmStudio.Screen

open Number Script Panel Act

/-! ## The monitor -/

def hundredths (clock : Value) : Nat :=
  match (clock.toReal.toOption.getD .zero).datum with
  | .finite false man exp =>
    let (num, den) := Format.scale man 1 (-exp)
    Format.nearestEven (num * 1000000) den / 10000
  | _ => 0

def stampText (clock : Value) : String :=
  let n := hundredths clock
  Vision.timeOfDay ":" (.int (n / 100 : Nat)) ++ "." ++ padZeros 2 (toString (n % 100))

variable (app : Nat)

def monitorLine (text : String) : Act Unit := do
  let (a, _) ← Act.app app
  let clock := (← get).station.clock
  Act.addLine a.monitorText (if a.stamping then "[" ++ stampText clock ++ "] " ++ text else text)

/-! ## Tasks -/

def linkEvent (e : Link.Event) : Act Unit :=
  match e with
  | .monitored text => monitorLine app text
  | .told m => Act.tell app m
  | e => record (.port e)

def wireOf (d : Desk) (a : App) : Link.Wire where
  readings := d.readings
  writings := d.writings
  ports := d.ports
  isOpen := a.portOpen
  monitor := a.monitoring
  disk := d.disk
  trace := #[]

def runTask (task : Parcel) : Act Unit := do
  let (a, _) ← Act.app app
  let (result, wire) := (Link.Talk.performData task.1 task.2).run (wireOf (← get) a)
  modify fun d => { d with readings := wire.readings, writings := wire.writings, disk := wire.disk }
  Act.updateApp app fun a => { a with portOpen := wire.isOpen }
  for e in wire.trace.toList do
    linkEvent app e
  match result with
  | .ok _ => return
  | .error e => throw (.link e)

def runTasks (app : Nat) : List Parcel → Act Unit
  | [] => return
  | task :: rest => do
    Act.updateApp app fun a => { a with tasks := rest }
    runTask app task
    runTasks app rest

/-! ## Messages -/

def kindName : Document → String
  | .null => "NoneType"
  | .flag _ => "bool"
  | .int _ => "int"
  | .real _ => "float"
  | .text _ => "str"
  | .list _ => "list"
  | .record _ => "dict"

def takeMessage (message : Parcel) : Act Unit := do
  let (a, parts) ← Act.app app
  match message with
  | (10, .text "OK") => Act.change a.portLabel [("text", .text "串口已打开")]
  | (10, .text "FAILED") => Act.change a.portLabel [("text", .text "打开串口失败")]
  | (2, _) => Act.updateApp app fun a => { a with monitoring := true }
  | (3, _) => Act.updateApp app fun a => { a with monitoring := false }
  | (20, value) => Act.assign a.progressVariable value
  | (0, .text text) => Act.record (.dialog "showerror" [.text "错误", .text ("错误：" ++ text)])
  | (0, data) => throw (.notJoined (kindName data))
  | (1, data) => Act.record (.dialog "showinfo" [.text "信息", data])
  | (60, .text text) =>
    if a.console = .immediate then
      Act.dropFront parts.text (← Act.contentOf parts.text).length
      Act.insert parts.text text
  | _ => return

def takeMessages (app : Nat) : List Parcel → Act Unit
  | [] => return
  | message :: rest => do
    Act.updateApp app fun a => { a with inbox := rest }
    takeMessage app message
    takeMessages app rest

/-! ## Programs and pictures -/

def give : Request → Act Unit
  | .task m => addTask app m
  | .notice m => tell app m

def keepFiles (d : Disk) (folder : String) (files : List (String × Content)) : Disk :=
  if files.isEmpty then d
  else files.foldl (fun d (name, c) => d.write (Disk.join folder name) c.toBytes) (d.makeDir folder)

/-- Builds a source file, and downloads what was built if that is wanted. -/
def build (source : Nat) (download : Option Nat) : Act Unit := do
  let (_, parts) ← Act.app app
  let path ← Act.textOf source
  match buildFile (Disk.fileName path) ((← get).disk.read? path) with
  | .error e => throw (.notText e)
  | .ok b =>
    modify fun d => { d with disk := keepFiles d.disk (buildFolder path) b.files.entries }
    for m in b.messages do
      Act.addLine parts.text m
    match Request.downloadBuilt b path, download with
    | some request, some bytes =>
      assign bytes (.text (byteFile path))
      give app request
    | _, _ => return

def benchEvent (e : Vision.Event) : Act Unit := do
  let (_, parts) ← Act.app app
  match e with
  | .said text => Act.insert parts.text (text ++ "\n")
  | .presented _ => Act.change parts.picture [("image", .text "PhotoImage")]
  | .published t => Act.addTask app (.track t.pose.x t.pose.y t.pose.rotation (.int t.id))
  | _ => return

def watchCamera (number : Int) : Act Unit := do
  let d ← get
  let fresh := { d.station with events := #[], printed := #[] }
  let (_, station) := (Vision.watch d.camera number).run fresh
  set { d with
    station := { station with events := #[], printed := #[] }
    printed := d.printed ++ station.printed }
  for e in station.events.toList do
    benchEvent app e

/-- Starts a task unless it is to be held back; gives whether it is under way. -/
def startTask (work : Act Unit) : Act Bool := do
  if (← get).held then return true
  else
    work
    return false

def setRunning (running : Bool) : Act Unit := modify fun d => { d with
    station := { d.station with memory := { d.station.memory with running := running } } }

/-! ## Buttons -/

def accepted : Document → Bool
  | .flag b => b
  | .text s => s != ""
  | .int n => n != 0
  | .null => false
  | _ => true

def fileKinds (name pattern : String) : Document := .list [.list [.text name, .text pattern]]

def binaryPath (path : String) : String :=
  if path.isEmpty || path.endsWith ".bin" then path else path ++ ".bin"

def Action.run : Action → Act Unit
  | .openConsole title c => do
    let (a, _) ← Act.app app
    Act.change a.modeLabel [("text", .text title)]
    setConsole app c
  | .toggleMonitor button => do
    let (a, _) ← Act.app app
    Act.change button [("text", .text (if a.monitorShown then "启用串口监视器" else "禁用串口监视器"))]
    Act.updateApp app fun a => { a with monitorShown := !a.monitorShown }
    Act.tell app (if a.monitorShown then .disableMonitor else .enableMonitor)
  | .clearMonitor => do
    let (a, _) ← Act.app app
    Act.dropFront a.monitorText (← Act.contentOf a.monitorText).length
  | .toggleStamp => Act.updateApp app fun a => { a with stamping := !a.stamping }
  | .openPort => do
    let (a, _) ← Act.app app
    Act.addTask app (.openPort (← Act.textOf a.portVariable))
  | .task m => Act.addTask app m
  | .setSpeed slots => do give app (.setSpeed (← slots.mapM textOf))
  | .movePose slots => do give app (.movePose (← slots.mapM textOf))
  | .moveJoints slots => do give app (.moveJoints (← slots.mapM textOf))
  | .eraseFlash => do
    let answer ← answer "askokcancel"
      [.text "擦除Flash", .text "确认要进行全片擦除吗？（这将花费约一分钟）"]
    if accepted answer then addTask app .cleanFlash
  | .chooseFile slot title name pattern => do
    assign slot (← answer "open" [.text title, fileKinds name pattern])
  | .chooseTarget slot => do
    match ← answer "save" [.text "请选择保存路径", fileKinds "Binary Files" "*.bin"] with
    | .text path => assign slot (.text (binaryPath path))
    | other => assign slot other
  | .writeFlash address path => do
    give app (.writeFlash (← textOf address) (← textOf path))
  | .readFlash address length path => do
    give app (.readFlash (← textOf address) (← textOf length) (← textOf path))
  | .compile source target => do
    let (a, _) ← Act.app app
    if a.compiling = some true then throw .startedTwice
    Act.updateApp app fun a => { a with compiling := some false }
    let under ← startTask (build app source target)
    Act.updateApp app fun a => { a with compiling := some under }
  | .download path => do give app (.download (← textOf path))
  | .startVision camera => do
    let (a, _) ← Act.app app
    if a.watching = some true then return
    match readInt 10 (← Act.textOf camera).toList with
    | .error _ => tell app (.errorWindow "请选择摄像头")
    | .ok number =>
      setRunning true
      let under ← startTask (watchCamera app number)
      Act.updateApp app fun a => { a with watching := some under }
  | .stopVision => do
    let (a, _) ← Act.app app
    if a.watching.isSome then setRunning false

def scanCameras : Act Unit := do
  let (a, parts) ← Act.app app
  if a.console ≠ .visual then throw (.noScan a.console.name)
  Act.change parts.caption [("text", .text "正在扫描摄像头...")]
  let camera := (← get).camera
  for n in List.range 5 do
    let line := if camera.opens n then s!"✓ 摄像头索引 {n}: 可用" else s!"✗ 摄像头索引 {n}: 不可用"
    modify fun d => { d with printed := d.printed.push line }
  let found := (List.range 5).filter fun (n : Nat) => camera.opens n
  Act.updateWidget parts.menu fun w => { w with items := found.map fun n => toString n }
  Act.change parts.caption [("text", .text "请选择摄像头:")]

end ArmStudio.Screen
