/-!
# Built-in commands

The commands that a terminal understands, the tasks of the assistant and the subcommands for the
version history. Names are found by their exact text.
-/

namespace Workbench

inductive Command where
  | help
  | ls
  | cd
  | pwd
  | cat
  | mkdir
  | touch
  | rm
  | rmdir
  | cp
  | mv
  | clear
  | echo
  | whoami
  | date
  | find
  | grep
  | head
  | tail
  | wc
  | ps
  | df
  | du
  | history
  | env
  | shell
  | ai
  | git
  deriving DecidableEq, Repr

namespace Command

def all : List Command :=
  [help, ls, cd, pwd, cat, mkdir, touch, rm, rmdir, cp, mv, clear, echo, whoami, date, find, grep,
    head, tail, wc, ps, df, du, history, env, shell, ai, git]

def text : Command → String
  | help => "help"
  | ls => "ls"
  | cd => "cd"
  | pwd => "pwd"
  | cat => "cat"
  | mkdir => "mkdir"
  | touch => "touch"
  | rm => "rm"
  | rmdir => "rmdir"
  | cp => "cp"
  | mv => "mv"
  | clear => "clear"
  | echo => "echo"
  | whoami => "whoami"
  | date => "date"
  | find => "find"
  | grep => "grep"
  | head => "head"
  | tail => "tail"
  | wc => "wc"
  | ps => "ps"
  | df => "df"
  | du => "du"
  | history => "history"
  | env => "env"
  | shell => "shell"
  | ai => "ai"
  | git => "git"

def description : Command → String
  | help => "Show all available commands"
  | ls => "List directory contents"
  | cd => "Change directory"
  | pwd => "Print working directory"
  | cat => "Display file contents"
  | mkdir => "Create new directory"
  | touch => "Create new file"
  | rm => "Remove files/directories"
  | rmdir => "Remove empty directory"
  | cp => "Copy files/directories"
  | mv => "Move/rename files"
  | clear => "Clear terminal screen"
  | echo => "Display text"
  | whoami => "Display current user"
  | date => "Show current date and time"
  | find => "Search for files"
  | grep => "Search text in files"
  | head => "Show first lines of file"
  | tail => "Show last lines of file"
  | wc => "Word count"
  | ps => "Show running processes"
  | df => "Disk space usage"
  | du => "Directory space usage"
  | history => "Show command history"
  | env => "Show environment variables"
  | shell => "Show or switch the shell"
  | ai => "AI tools (fix, build, optimize, ...)"
  | git => "Version control"

def ofText? (s : String) : Option Command := all.find? fun c => c.text == s

theorem ofText?_text (c : Command) : ofText? c.text = some c := by cases c <;> rfl

end Command

inductive AiTask where
  | fix
  | build
  | optimize
  | explain
  | deploy
  | test
  | analyze
  | generate
  deriving DecidableEq, Repr

namespace AiTask

def all : List AiTask := [fix, build, optimize, explain, deploy, test, analyze, generate]

def text : AiTask → String
  | fix => "fix"
  | build => "build"
  | optimize => "optimize"
  | explain => "explain"
  | deploy => "deploy"
  | test => "test"
  | analyze => "analyze"
  | generate => "generate"

def description : AiTask → String
  | fix => "Fix code issues and bugs"
  | build => "Build and compile project"
  | optimize => "Optimize code performance"
  | explain => "Explain code functionality"
  | deploy => "Deploy to production"
  | test => "Run tests and generate reports"
  | analyze => "Analyze code complexity"
  | generate => "Generate code from specs"

def ofText? (s : String) : Option AiTask := all.find? fun t => t.text == s

def summary : AiTask → String
  | fix =>
    "✅ Code issues fixed!\n\nFixed 3 syntax errors\nAdded 2 null checks\n" ++
      "Improved error handling\nOptimized 2 functions"
  | build =>
    "✅ Build successful!\n\nCompiled 15 files\n0 errors, 2 warnings\n" ++
      "Build size: 2.3MB\nBuild time: 1.2s"
  | optimize =>
    "✅ Code optimized!\n\nPerformance improved by 40%\nMemory usage reduced by 25%\n" ++
      "Removed redundant code\nAdded caching layer"
  | explain => "✅ Explain completed successfully!"
  | deploy => "✅ Deploy completed successfully!"
  | test => "✅ Test completed successfully!"
  | analyze => "✅ Analyze completed successfully!"
  | generate => "✅ Generate completed successfully!"

def opening (t : AiTask) : String :=
  "🤖 HENU AI: Processing \"" ++ t.text ++ "\" command...\n" ++
    "⏳ Initializing AI model...\n" ++
    "🔍 Analyzing current context...\n" ++
    "💡 Generating solution...\n\n"

end AiTask

inductive GitVerb where
  | init
  | status
  | add
  | reset
  | commit
  | branch
  | checkout
  | log
  | push
  | pull
  deriving DecidableEq, Repr

namespace GitVerb

def all : List GitVerb :=
  [init, status, add, reset, commit, branch, checkout, log, push, pull]

def text : GitVerb → String
  | init => "init"
  | status => "status"
  | add => "add"
  | reset => "reset"
  | commit => "commit"
  | branch => "branch"
  | checkout => "checkout"
  | log => "log"
  | push => "push"
  | pull => "pull"

def ofText? (s : String) : Option GitVerb := all.find? fun v => v.text == s

end GitVerb

end Workbench
