import EdgeAllocator.Live

/-! How much work the live runtime has in hand. No resource fluctuates there, so that
what a node holds bounds the queue behind it. -/
namespace EdgeAllocator.Live

open Foundation Pipeline Scheduler Executor

end EdgeAllocator.Live
